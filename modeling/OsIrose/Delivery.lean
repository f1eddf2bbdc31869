/-
In-order delivery over a byte stream, for any `OnReceived` that cuts packets.

`Framing` is what `recv_data` needs of the function registered with it: on the six
bytes of a header it asks for the rest of the packet, and on the last byte of a packet
it queues that packet and starts over. It says nothing of reads, errors or other
packets. From it this file proves what holds along every run of the connection, however
the reads cut the stream: what has been queued is what was sent, in order, up to the
first packet that `HandlePacket` rejects (`delivered_of_run`).

The invariant is `Delivered`: the stream so far is the packets already queued and a
part of the next one, and `Phase` ties that part to the cursor and the buffer.
-/
import OsIrose.Network

set_option autoImplicit false

namespace OsIrose.Delivery

open ByteMem Crypt Network Runs

variable {α : Type}

/-- The bytes of packets sent back to back. -/
def wires (wire : α → List Byte) (ps : List α) : List Byte := ps.flatMap wire

/-- The packets a connection gets to see: it is shut down after the first one that
`accept` refuses. -/
def throughFirstReject (accept : ℕ → α → Bool) : ℕ → List α → List α
  | _, [] => []
  | i, p :: ps => p :: if accept i p then throughFirstReject accept (i + 1) ps else []

/-- A function that cuts the packets `good` out of a stream. `ready p b` says that the
header of `p` has been taken in and left in the first six bytes of `b`. -/
structure Framing (handlePacket : ℕ → List Byte → Bool)
    (onReceived : Receiver → Bool × Receiver) (wire payload : α → List Byte)
    (good : α → Prop) (ready : α → (ℕ → Byte) → Prop) : Prop where
  six_le : ∀ p, good p → 6 ≤ (wire p).length
  le_max : ∀ p, good p → (wire p).length ≤ MAX_PACKET_SIZE
  ready_congr : ∀ p b c, (∀ j, j < 6 → c j = b j) → ready p b → ready p c
  header : ∀ p r, good p → r.packet_size = 6 → 6 < (wire p).length →
    (∀ j, j < 6 → r.buffer j = (wire p).getD j 0) →
    ∃ b acc, ready p b ∧ onReceived r
      = (true, { r with buffer := b, accesses := acc, packet_size := (wire p).length })
  short : ∀ p r, good p → r.packet_size = 6 → (wire p).length = 6 →
    (∀ j, j < 6 → r.buffer j = (wire p).getD j 0) →
    ∃ b acc n, copyPacket b = payload p ∧ onReceived r
      = (true, receivePacket handlePacket
          { r with buffer := b, accesses := acc, packet_size := n })
  body : ∀ p r, good p → r.packet_size = (wire p).length → 6 < (wire p).length →
    ready p r.buffer →
    (∀ j, 6 ≤ j → j < (wire p).length → r.buffer j = (wire p).getD j 0) →
    ∃ b acc n, copyPacket b = payload p ∧ onReceived r
      = (true, receivePacket handlePacket
          { r with buffer := b, accesses := acc, packet_size := n })

/-- Where the receiver stands in the packets `rest`, of which `part` has arrived. -/
inductive Phase (wire : α → List Byte) (ready : α → (ℕ → Byte) → Prop) (r : Receiver) :
    List α → List Byte → Prop
  | header {rest : List α} {part : List Byte} :
      r.packet_size = 6 → r.packet_offset = part.length → part.length < 6 →
      part <+: wires wire rest →
      (∀ j, j < part.length → r.buffer j = part.getD j 0) → Phase wire ready r rest part
  | body {p : α} {rest : List α} {part : List Byte} :
      r.packet_size = (wire p).length → r.packet_offset = part.length →
      6 ≤ part.length → part.length < (wire p).length → part <+: wire p →
      ready p r.buffer →
      (∀ j, 6 ≤ j → j < part.length → r.buffer j = part.getD j 0) →
      Phase wire ready r (p :: rest) part

section

variable {handlePacket : ℕ → List Byte → Bool} {onReceived : Receiver → Bool × Receiver}
    {wire payload : α → List Byte} {good : α → Prop} {ready : α → (ℕ → Byte) → Prop}
    {r : Receiver} {rest : List α} {part : List Byte} {c : Completion}

theorem Phase.offset (h : Phase wire ready r rest part) : r.packet_offset = part.length := by
  cases h with
  | header _ hoff => exact hoff
  | body _ hoff => exact hoff

theorem Phase.lt (h : Phase wire ready r rest part) : part.length < r.packet_size := by
  cases h with
  | header hsize _ hlt =>
      rw [hsize]
      exact hlt
  | body hsize _ _ hlt =>
      rw [hsize]
      exact hlt

theorem Phase.part_prefix (h : Phase wire ready r rest part) : part <+: wires wire rest := by
  cases h with
  | header _ _ _ hpre => exact hpre
  | body _ _ _ _ hpre => exact hpre.trans (List.prefix_append _ _)

/-- A phase does not depend on anything but the cursor and the buffer. -/
theorem Phase.congr {r' : Receiver} (hs : SameFrame r r')
    (h : Phase wire ready r rest part) : Phase wire ready r' rest part := by
  cases h with
  | header hsize hoff hlt hpre hbuf =>
      refine Phase.header (hs.packet_size.trans hsize) (hs.packet_offset.trans hoff) hlt
        hpre ?_
      rw [hs.buffer]
      exact hbuf
  | body hsize hoff h6 hlt hpre hready hbuf =>
      refine Phase.body (hs.packet_size.trans hsize) (hs.packet_offset.trans hoff) h6 hlt
        hpre ?_ ?_
      · rw [hs.buffer]
        exact hready
      · rw [hs.buffer]
        exact hbuf

variable (hF : Framing handlePacket onReceived wire payload good ready)
    (hgood : ∀ p rest', rest = p :: rest' → good p)

include hF hgood

theorem Phase.le_max (h : Phase wire ready r rest part) : r.packet_size ≤ MAX_PACKET_SIZE := by
  cases h with
  | header hsize =>
      rw [hsize]
      decide
  | @body p rest' _ hsize =>
      rw [hsize]
      exact hF.le_max p (hgood p rest' rfl)

/-- The rest of the next packet is what the outstanding read asks for, unless its
header has not arrived yet; then it asks for the rest of the header. -/
theorem Phase.head_le (h : Phase wire ready r rest part) {p : α} {rest' : List α}
    (hrest : rest = p :: rest') : part.length < (wire p).length ∧
      r.packet_size ≤ (wire p).length := by
  cases h with
  | header hsize _ hlt =>
      have h6 := hF.six_le p (hgood p rest' hrest)
      omega
  | @body q rest'' _ hsize _ _ hlt =>
      obtain ⟨rfl, -⟩ := List.cons.inj hrest
      exact ⟨hlt, hsize.le⟩

/-- A read that does not complete leaves a longer part. -/
theorem Phase.partial_read (h : Phase wire ready r rest part) (hv : c.Valid r)
    (hc : c.errorCode ≠ .success) (hpre : part ++ c.bytes <+: wires wire rest) :
    Phase wire ready (r.transferred c) rest (part ++ c.bytes) := by
  have hoff := h.offset
  have hlt := h.lt
  obtain ⟨hoff', -, hpart⟩ := transferred_packet_offset hv (by omega) (h.le_max hF hgood)
  have hshort := hpart hc
  have hlen : (part ++ c.bytes).length = part.length + c.bytes.length := List.length_append
  cases h with
  | header hsize _ _ _ hbuf =>
      refine Phase.header hsize (by omega) (by omega) hpre ?_
      intro j hj
      dsimp only [Receiver.transferred]
      rw [hoff]
      exact writeAt_append (fun j _ hj => hbuf j hj) (Nat.zero_le j) hj
  | @body p rest' _ hsize _ h6 _ _ hready hbuf =>
      have hpre' : part ++ c.bytes <+: wire p := by
        refine List.prefix_of_prefix_length_le hpre (List.prefix_append _ _) ?_
        omega
      refine Phase.body hsize (by omega) (by omega) (by omega) hpre' ?_ ?_
      · refine hF.ready_congr p _ _ (fun j hj => ?_) hready
        exact writeAt_of_lt (by omega)
      · intro j hlo hj
        dsimp only [Receiver.transferred]
        rw [hoff]
        exact writeAt_append hbuf hlo hj

/-- A read that completes brings the header of a longer packet, or the last byte of a
packet; then `OnReceived` queues that packet. -/
theorem Phase.complete_read (h : Phase wire ready r rest part) (hv : c.Valid r)
    (hc : c.errorCode = .success) (hpre : part ++ c.bytes <+: wires wire rest) :
    (∃ r', onReceived (r.transferred c) = (true, r') ∧
        Phase wire ready r' rest (part ++ c.bytes) ∧
        ∃ b acc n, r' = { r.transferred c with
          buffer := b, accesses := acc, packet_size := n }) ∨
      ∃ p rest', rest = p :: rest' ∧ part ++ c.bytes = wire p ∧
        ∃ b acc n, copyPacket b = payload p ∧ onReceived (r.transferred c)
          = (true, receivePacket handlePacket { r.transferred c with
              buffer := b, accesses := acc, packet_size := n }) := by
  have hoff := h.offset
  have hlt := h.lt
  obtain ⟨hoff', hfull, -⟩ := transferred_packet_offset hv (by omega) (h.le_max hF hgood)
  have hall := hfull hc
  have hlen : (part ++ c.bytes).length = part.length + c.bytes.length := List.length_append
  have hbytes : ∀ {lo}, (∀ j, lo ≤ j → j < part.length → r.buffer j = part.getD j 0) →
      ∀ j, lo ≤ j → j < (part ++ c.bytes).length →
        (r.transferred c).buffer j = (part ++ c.bytes).getD j 0 := by
    intro lo hbuf j hlo hj
    dsimp only [Receiver.transferred]
    rw [hoff]
    exact writeAt_append hbuf hlo hj
  -- what has arrived, read off the packet it is part of
  have hwire : ∀ {p : α}, part ++ c.bytes <+: wire p → ∀ j, j < (part ++ c.bytes).length →
      (part ++ c.bytes).getD j 0 = (wire p).getD j 0 := by
    rintro p ⟨tail, htail⟩ j hj
    rw [← htail, List.getD_append _ _ _ _ hj]
  cases h with
  | header hsize _ _ _ hbuf =>
      -- the header is complete, and with it the whole packet if it has six bytes
      have hsix : (part ++ c.bytes).length = 6 := by omega
      cases rest with
      | nil =>
          have hnil := hpre.length_le
          simp only [wires, List.flatMap_nil, List.length_nil] at hnil
          omega
      | cons p rest' =>
          have hp := hgood p rest' rfl
          have h6 := hF.six_le p hp
          have hpre' : part ++ c.bytes <+: wire p :=
            List.prefix_of_prefix_length_le hpre (List.prefix_append _ _) (by omega)
          have harrived : ∀ j, j < 6 → (r.transferred c).buffer j = (wire p).getD j 0 := by
            intro j hj
            rw [hbytes (fun j _ hj => hbuf j hj) j (Nat.zero_le j) (by omega)]
            exact hwire hpre' j (by omega)
          by_cases hshort : (wire p).length = 6
          · right
            refine ⟨p, rest', rfl, hpre'.eq_of_length (by omega), ?_⟩
            exact hF.short p (r.transferred c) hp hsize hshort harrived
          · left
            obtain ⟨b, acc, hready, heq⟩ :=
              hF.header p (r.transferred c) hp hsize (by omega) harrived
            refine ⟨_, heq, ?_, b, acc, _, rfl⟩
            refine Phase.body rfl (hoff'.trans (by omega)) (by omega) (by omega) hpre' hready ?_
            intro j hlo hj
            omega
  | @body p rest' _ hsize _ h6 hltp _ hready hbuf =>
      right
      have hp := hgood p rest' rfl
      have hpre' : part ++ c.bytes <+: wire p :=
        List.prefix_of_prefix_length_le hpre (List.prefix_append _ _) (by omega)
      refine ⟨p, rest', rfl, hpre'.eq_of_length (by omega), ?_⟩
      refine hF.body p (r.transferred c) hp hsize (by omega) ?_ ?_
      · refine hF.ready_congr p _ _ (fun j hj => ?_) hready
        exact writeAt_of_lt (by omega)
      · intro j hlo hj
        rw [hbytes hbuf j hlo (by omega)]
        exact hwire hpre' j (by omega)

end

/-! ## Runs -/

section

variable (handlePacket : ℕ → List Byte → Bool) (wire payload : α → List Byte)
    (ready : α → (ℕ → Byte) → Prop)

/-- What `HandlePacket` says of a packet of the stream. -/
def accepts (i : ℕ) (p : α) : Bool := handlePacket i (payload p)

/-- The packets the receiver gets to see. -/
def processed (ps : List α) : List α :=
  throughFirstReject (accepts handlePacket payload) 0 ps

/-- The state of the connection after `done` has been queued and `part` of the packets
`rest` has arrived. -/
inductive Status (ps : List α) (es : List Completion) (r : Receiver) (done rest : List α)
    (part : List Byte) : Prop
  /-- Every packet so far was accepted; the connection is open, or an error ended it. -/
  | going : Phase wire ready r rest part →
      processed handlePacket payload ps = done ++
        throughFirstReject (accepts handlePacket payload) done.length rest →
      r.handled = done.length → r.recv_queue = [] →
      (r.reading = true ∧ r.active = true ∨ r.reading = false ∧ ∃ c ∈ es, c.Fatal) →
      Status ps es r done rest part
  /-- The last packet was rejected. -/
  | rejected : part = [] → r.packet_offset = 0 → r.packet_size = 6 → r.reading = false →
      processed handlePacket payload ps = done → Status ps es r done rest part

/-- **The invariant of a connection**: the stream so far, cut into packets. -/
def Delivered (ps : List α) (es : List Completion) (r : Receiver) : Prop :=
  ∃ done rest part, ps = done ++ rest ∧ fed es = wires wire done ++ part ∧
    r.pushes.map Prod.snd = done.map payload ∧
    Status handlePacket wire payload ready ps es r done rest part

end

section

variable {handlePacket : ℕ → List Byte → Bool} {onReceived : Receiver → Bool × Receiver}
    {wire payload : α → List Byte} {good : α → Prop} {ready : α → (ℕ → Byte) → Prop}
    {ps : List α} {es : List Completion} {r r' : Receiver} {c : Completion}

theorem fed_append_singleton (es : List Completion) (c : Completion) :
    fed (es ++ [c]) = fed es ++ c.bytes := by
  simp only [fed, List.flatMap_append, List.flatMap_cons, List.flatMap_nil,
    List.append_nil]

theorem wires_append (ps qs : List α) : wires wire (ps ++ qs) = wires wire ps ++ wires wire qs :=
  List.flatMap_append

theorem wires_append_singleton (ps : List α) (p : α) :
    wires wire (ps ++ [p]) = wires wire ps ++ wire p := by
  simp only [wires, List.flatMap_append, List.flatMap_cons, List.flatMap_nil,
    List.append_nil]

/-- A packet is queued: the next one is awaited, or the connection closes. -/
theorem delivered_receivePacket {done rest : List α} {p : α} {r₁ : Receiver}
    (hps : ps = done ++ p :: rest) (hfed : fed es = wires wire done ++ wire p)
    (hpush : r₁.pushes.map Prod.snd = done.map payload)
    (hdata : copyPacket r₁.buffer = payload p) (hactive : r₁.active = true)
    (hqueue : r₁.recv_queue = []) (hreading : r₁.reading = false)
    (hhandled : r₁.handled = done.length)
    (hproc : processed handlePacket payload ps = done ++
      throughFirstReject (accepts handlePacket payload) done.length (p :: rest)) :
    Delivered handlePacket wire payload ready ps es (receivePacket handlePacket r₁).rearm := by
  refine ⟨done ++ [p], rest, [], ?_, ?_, ?_, ?_⟩
  · rw [hps, List.append_assoc, List.singleton_append]
  · rw [hfed, wires_append_singleton, List.append_nil]
  · rw [(SameFrame.rearm _).pushes, (receivePacket_frame handlePacket r₁).2.2,
      List.map_append, hpush, List.map_append, hdata]
    rfl
  · rw [receivePacket_eq handlePacket hactive hqueue, hdata, hhandled]
    rw [throughFirstReject] at hproc
    cases hres : handlePacket done.length (payload p) with
    | true =>
        have hacc : accepts handlePacket payload done.length p = true := hres
        rw [if_pos hacc, ← List.singleton_append, ← List.append_assoc] at hproc
        refine Status.going ?_ ?_ ?_ ?_ ?_
        · refine Phase.header rfl rfl (by decide) List.nil_prefix ?_
          intro j hj
          exact absurd hj (Nat.not_lt_zero j)
        · rw [hproc, List.length_append]
          rfl
        · dsimp only [Receiver.rearm, Receiver.recv_data]
          rw [if_pos rfl, List.length_append]
          rfl
        · exact hqueue
        · left
          exact ⟨rfl, rfl⟩
    | false =>
        have hacc : accepts handlePacket payload done.length p ≠ true := by
          intro h
          rw [accepts, hres] at h
          cases h
        rw [if_neg hacc] at hproc
        exact Status.rejected rfl rfl rfl hreading hproc

/-- A packet still to be processed is one that the connection gets to see. -/
theorem mem_processed {done rest : List α} {p : α}
    (hproc : processed handlePacket payload ps = done ++
      throughFirstReject (accepts handlePacket payload) done.length (p :: rest)) :
    p ∈ processed handlePacket payload ps := by
  rw [hproc, throughFirstReject]
  exact List.mem_append_right _ List.mem_cons_self

theorem delivered_step (hF : Framing handlePacket onReceived wire payload good ready)
    (hgood : ∀ p ∈ processed handlePacket payload ps, good p)
    (h : Delivered handlePacket wire payload ready ps es r) (hstep : Step onReceived r c r')
    (hfed : fed (es ++ [c]) <+: wires wire ps) :
    Delivered handlePacket wire payload ready ps (es ++ [c]) r' := by
  obtain ⟨hv, rfl⟩ := hstep
  obtain ⟨done, rest, part, hps, hes, hpush, hstatus⟩ := h
  cases hstatus with
  | rejected _ _ _ hreading => exact absurd hv (not_valid_of_not_reading hreading)
  | going hphase hproc hhandled hqueue hopen =>
      have hactive : r.active = true := by
        rcases hopen with hopen | hclosed
        · exact hopen.2
        · exact absurd hv (not_valid_of_not_reading hclosed.1)
      have hhead : ∀ p rest', rest = p :: rest' → good p := by
        intro p rest' hrest
        rw [hrest] at hproc
        exact hgood p (mem_processed hproc)
      have hes' : fed (es ++ [c]) = wires wire done ++ (part ++ c.bytes) := by
        rw [fed_append_singleton, hes, List.append_assoc]
      have hpre : part ++ c.bytes <+: wires wire rest := by
        rw [hes', hps, wires_append] at hfed
        exact (List.prefix_append_right_inj _).mp hfed
      by_cases hc : c.errorCode = .success
      · rcases hphase.complete_read hF hhead hv hc hpre with
          ⟨r₁, hrecv, hphase₁, b, acc, n, rfl⟩ | ⟨p, rest', rfl, hwhole, b, acc, n, hdata, hrecv⟩
        · -- the header of a longer packet: nothing is queued yet
          rw [onRead_eq_rearm hc hrecv]
          refine ⟨done, rest, part ++ c.bytes, hps, hes', ?_, ?_⟩
          · rw [(SameFrame.rearm _).pushes]
            exact hpush
          · have hsame := SameFrame.rearm { r.transferred c with
              buffer := b, accesses := acc, packet_size := n }
            exact Status.going (hphase₁.congr hsame) hproc (hsame.handled.trans hhandled)
              (hsame.recv_queue.trans hqueue) (Or.inl (rearm_open hactive))
        · -- the last byte of a packet
          rw [onRead_eq_rearm hc hrecv]
          rw [hwhole] at hes'
          exact delivered_receivePacket hps hes' hpush hdata hactive hqueue rfl hhandled hproc
      · -- an error: the connection reads on behind it or is over
        have hphase' := hphase.partial_read hF hhead hv hc hpre
        refine ⟨done, rest, part ++ c.bytes, hps, hes', ?_, ?_⟩
        · rw [(onRead_of_ne_success _ hc r).pushes]
          exact hpush
        · rcases onRead_error onReceived hc r with ⟨-, heq⟩ | ⟨hfatal, heq⟩
          · rw [heq]
            have hsame := SameFrame.rearm (r.transferred c)
            exact Status.going (hphase'.congr hsame) hproc (hsame.handled.trans hhandled)
              (hsame.recv_queue.trans hqueue) (Or.inl (rearm_open hactive))
          · rw [heq]
            refine Status.going (hphase'.congr (SameFrame.shutdown _)) hproc hhandled hqueue ?_
            right
            exact ⟨rfl, c, List.mem_append_right _ List.mem_cons_self, hfatal⟩

/-- **The invariant holds along every run** that is fed from the stream. -/
theorem delivered_of_run (hF : Framing handlePacket onReceived wire payload good ready)
    (hgood : ∀ p ∈ processed handlePacket payload ps, good p) (buffer : ℕ → Byte)
    (h : Run (Step onReceived) (accepted buffer) es r) (hfed : fed es <+: wires wire ps) :
    Delivered handlePacket wire payload ready ps es r := by
  refine @Run.invariant _ _ _ _ (fun es r => fed es <+: wires wire ps →
    Delivered handlePacket wire payload ready ps es r) ?_ ?_ es r h hfed
  · intro _
    refine ⟨[], ps, [], rfl, rfl, rfl, Status.going ?_ rfl rfl rfl (Or.inl ⟨rfl, rfl⟩)⟩
    refine Phase.header rfl rfl (by decide) List.nil_prefix ?_
    intro j hj
    exact absurd hj (Nat.not_lt_zero j)
  · intro es r c r' ih hstep hfed'
    refine delivered_step hF hgood (ih ?_) hstep hfed'
    rw [fed_append_singleton] at hfed'
    exact (List.prefix_append _ _).trans hfed'

/-! ## What a run delivers -/

/-- A run is over when the peer has nothing more to send, or when the connection reads
no more without an error having ended it. -/
def Finished (wire : α → List Byte) (ps : List α) (es : List Completion) (r : Receiver) :
    Prop :=
  fed es = wires wire ps ∨ r.reading = false ∧ ∀ c ∈ es, ¬ c.Fatal

/-- **In-order delivery** of the packets `ps` by a run that ended in `r`. -/
structure InOrder (handlePacket : ℕ → List Byte → Bool) (wire payload : α → List Byte)
    (ps : List α) (es : List Completion) (r : Receiver) : Prop where
  /-- Nothing but the packets sent is queued, in order. -/
  queued : r.pushes.map Prod.snd <+: (processed handlePacket payload ps).map payload
  /-- None is lost. -/
  finished : Finished wire ps es r →
    r.pushes.map Prod.snd = (processed handlePacket payload ps).map payload
  /-- The cursor is back at the start after each packet. -/
  reset : ∀ k, fed es = wires wire (ps.take k) → r.packet_offset = 0 ∧ r.packet_size = 6
  /-- An outstanding read asks for bytes that are still to come. -/
  progress : r.reading = true → fed es ≠ wires wire ps →
    0 < r.BytesToRead ∧ r.BytesToRead ≤ (wires wire ps).length - (fed es).length

/-- An empty part means that the next packet has not begun. -/
theorem Phase.of_nil {rest : List α} (h : Phase wire ready r rest []) :
    r.packet_offset = 0 ∧ r.packet_size = 6 := by
  cases h with
  | header hsize hoff => exact ⟨hoff, hsize⟩
  | body _ _ h6 => exact absurd h6 (by decide)

/-- The first `k` packets have arrived only where a packet ends. -/
theorem part_eq_nil {done rest : List α} {part : List Byte} {k : ℕ}
    (hlt : ∀ p rest', rest = p :: rest' → part.length < (wire p).length)
    (hfed : wires wire done ++ part = wires wire ((done ++ rest).take k))
    (hpre : part <+: wires wire rest) : part = [] := by
  rw [List.take_append, wires_append] at hfed
  have hlen := congrArg List.length hfed
  rw [List.length_append, List.length_append] at hlen
  apply List.eq_nil_of_length_eq_zero
  -- `k` packets among those done, or one of the rest as well, of which `part` lacks a byte
  by_cases hk : k ≤ done.length
  · have hle : (wires wire (done.take k)).length ≤ (wires wire done).length := by
      conv_rhs => rw [← List.take_append_drop k done, wires_append, List.length_append]
      omega
    have hzero : k - done.length = 0 := by omega
    rw [hzero, List.take_zero] at hlen
    simp only [wires, List.flatMap_nil, List.length_nil] at hlen hle
    omega
  · rw [List.take_of_length_le (by omega)] at hlen
    cases rest with
    | nil =>
        have hnil := hpre.length_le
        simp only [wires, List.flatMap_nil, List.length_nil] at hnil
        omega
    | cons p rest' =>
        have hp := hlt p rest' rfl
        obtain ⟨k', hk'⟩ : ∃ k', k - done.length = k' + 1 := ⟨k - done.length - 1, by omega⟩
        rw [hk', List.take_succ_cons] at hlen
        simp only [wires, List.flatMap_cons, List.length_append] at hlen
        omega

theorem inOrder_of_delivered (hF : Framing handlePacket onReceived wire payload good ready)
    (hgood : ∀ p ∈ processed handlePacket payload ps, good p)
    (h : Delivered handlePacket wire payload ready ps es r) :
    InOrder handlePacket wire payload ps es r := by
  obtain ⟨done, rest, part, hps, hes, hpush, hstatus⟩ := h
  cases hstatus with
  | rejected hpart hoff hsize hreading hproc =>
      refine ⟨?_, ?_, ?_, ?_⟩
      · rw [hpush, hproc]
      · intro _
        rw [hpush, hproc]
      · intro _ _
        exact ⟨hoff, hsize⟩
      · intro h
        rw [hreading] at h
        cases h
  | going hphase hproc hhandled hqueue hopen =>
      have hhead : ∀ p rest', rest = p :: rest' → good p := by
        intro p rest' hrest
        rw [hrest] at hproc
        exact hgood p (mem_processed hproc)
      have hlt : ∀ p rest', rest = p :: rest' → part.length < (wire p).length :=
        fun p rest' hrest => (hphase.head_le hF hhead hrest).1
      -- a part can be all the rest only where there is no rest
      have hend : part = wires wire rest → rest = [] := by
        intro hpart
        cases rest with
        | nil => rfl
        | cons p rest' =>
            have hp := hlt p rest' rfl
            rw [hpart] at hp
            simp only [wires, List.flatMap_cons, List.length_append] at hp
            omega
      have hall : fed es = wires wire ps → rest = [] := by
        intro hfed
        rw [hes, hps, wires_append] at hfed
        exact hend (List.append_cancel_left hfed)
      -- queued, finished, reset, progress
      refine ⟨?_, ?_, ?_, ?_⟩
      · rw [hpush, hproc, List.map_append]
        exact List.prefix_append _ _
      · rintro (hfed | ⟨hreading, hnone⟩)
        · rw [hpush, hproc, hall hfed, throughFirstReject, List.append_nil]
        · rcases hopen with hopen | ⟨-, c, hc, hfatal⟩
          · rw [hopen.1] at hreading
            cases hreading
          · exact absurd hfatal (hnone c hc)
      · intro k hk
        rw [hes, hps] at hk
        have hnil := part_eq_nil hlt hk hphase.part_prefix
        subst hnil
        exact hphase.of_nil
      · intro _ hne
        have hoff := hphase.offset
        have hsize := hphase.lt
        rw [BytesToRead_eq (by omega) (hphase.le_max hF hhead), hps, hes, wires_append,
          List.length_append, List.length_append]
        cases rest with
        | nil =>
            have hnil := hphase.part_prefix
            have hnil' : part = [] := List.prefix_nil.mp hnil
            rw [hes, hps, List.append_nil, hnil', List.append_nil] at hne
            exact absurd rfl hne
        | cons p rest' =>
            have hp := (hphase.head_le hF hhead rfl).2
            simp only [wires, List.flatMap_cons, List.length_append]
            omega

/-- **In-order delivery**, along every run and however the reads cut the stream. -/
theorem inOrder_of_run (hF : Framing handlePacket onReceived wire payload good ready)
    (hgood : ∀ p ∈ processed handlePacket payload ps, good p) (buffer : ℕ → Byte)
    (h : Run (Step onReceived) (accepted buffer) es r) (hfed : fed es <+: wires wire ps) :
    InOrder handlePacket wire payload ps es r :=
  inOrder_of_delivered hF hgood (delivered_of_run hF hgood buffer h hfed)

/-- A packet is processed if all before it are accepted. -/
theorem throughFirstReject_eq_self {accept : ℕ → α → Bool} (h : ∀ i p, accept i p = true)
    (i : ℕ) (ps : List α) : throughFirstReject accept i ps = ps := by
  induction ps generalizing i with
  | nil => rfl
  | cons p ps ih => rw [throughFirstReject, if_pos (h i p), ih]

/-- What is left out comes behind a packet that was refused. -/
theorem throughFirstReject_split (accept : ℕ → α → Bool) (i : ℕ) (ps : List α) :
    ∃ rest, ps = throughFirstReject accept i ps ++ rest ∧
      (rest = [] ∨ ∃ before p, throughFirstReject accept i ps = before ++ [p] ∧
        accept (i + before.length) p = false) := by
  induction ps generalizing i with
  | nil => exact ⟨[], rfl, Or.inl rfl⟩
  | cons p ps ih =>
      rw [throughFirstReject]
      cases hres : accept i p with
      | false =>
          rw [if_neg (by decide)]
          exact ⟨ps, rfl, Or.inr ⟨[], p, rfl, hres⟩⟩
      | true =>
          rw [if_pos rfl]
          obtain ⟨rest, hps, hlast⟩ := ih (i + 1)
          refine ⟨rest, by rw [List.cons_append, ← hps], hlast.imp_right ?_⟩
          rintro ⟨before, q, heq, hq⟩
          refine ⟨p :: before, q, by rw [heq, List.cons_append], ?_⟩
          rw [List.length_cons, ← hq]
          congr 1
          omega

/-- Some run of the stream is over: a read takes what it asks for while that is there,
and the last one is left waiting. All that is needed of `OnReceived` is that it never
leaves a read with nothing to ask for. -/
theorem exists_finished_run {inv : Receiver → Prop} {buffer : ℕ → Byte}
    (hinit : inv (accepted buffer))
    (hstep : ∀ r c r', inv r → Step onReceived r c r' → inv r')
    (hbound : ∀ r, inv r → r.packet_offset < r.packet_size ∧ r.packet_size ≤ MAX_PACKET_SIZE)
    (stream : List Byte) :
    ∃ es r, Run (Step onReceived) (accepted buffer) es r ∧ fed es <+: stream ∧
      (fed es = stream ∨ r.reading = false ∧ ∀ c ∈ es, ¬ c.Fatal) := by
  -- from any state the run can be continued to the end of the stream
  have hgo : ∀ n es r rem, rem.length = n → stream = fed es ++ rem →
      Run (Step onReceived) (accepted buffer) es r → (∀ c ∈ es, ¬ c.Fatal) →
      ∃ es r, Run (Step onReceived) (accepted buffer) es r ∧ fed es <+: stream ∧
        (fed es = stream ∨ r.reading = false ∧ ∀ c ∈ es, ¬ c.Fatal) := by
    intro n
    induction n using Nat.strong_induction_on with
    | _ n ih =>
        intro es r rem hn hstream hrun hnone
        have hpre : fed es <+: stream := ⟨rem, hstream.symm⟩
        have hinv : inv r := hrun.state_invariant hinit hstep
        obtain ⟨hlt, hmax⟩ := hbound r hinv
        have hread := BytesToRead_eq hlt.le hmax
        cases hreading : r.reading with
        | false => exact ⟨es, r, hrun, hpre, Or.inr ⟨hreading, hnone⟩⟩
        | true =>
            -- what the read asks for is there, or the stream ends inside it
            by_cases hall : r.packet_size - r.packet_offset ≤ rem.length
            · set k := r.packet_size - r.packet_offset with hk
              have hcstep : Step onReceived r ⟨rem.take k, .success⟩
                  (onRead onReceived ⟨rem.take k, .success⟩ r) := by
                refine ⟨⟨hreading, ?_⟩, rfl⟩
                dsimp only
                rw [hread, List.length_take]
                omega
              refine ih (rem.drop k).length (by rw [List.length_drop]; omega)
                (es ++ [⟨rem.take k, .success⟩]) _ (rem.drop k) rfl ?_
                (Run.snoc hrun hcstep) ?_
              · rw [fed_append_singleton, List.append_assoc]
                dsimp only
                rw [List.take_append_drop]
                exact hstream
              · intro c hc
                rcases List.mem_append.mp hc with hold | hnew
                · exact hnone c hold
                · rw [List.mem_singleton.mp hnew]
                  rintro (hp | hf)
                  · cases hp
                  · cases hf
            · have hcstep : Step onReceived r ⟨rem, .try_again⟩
                  (onRead onReceived ⟨rem, .try_again⟩ r) := by
                refine ⟨⟨hreading, ?_⟩, rfl⟩
                dsimp only
                rw [hread]
                omega
              have hend : fed (es ++ [⟨rem, .try_again⟩]) = stream := by
                rw [fed_append_singleton]
                exact hstream.symm
              exact ⟨_, _, Run.snoc hrun hcstep, by rw [hend], Or.inl hend⟩
  exact hgo stream.length [] (accepted buffer) stream rfl rfl Run.nil (fun _ h => nomatch h)

end

end OsIrose.Delivery

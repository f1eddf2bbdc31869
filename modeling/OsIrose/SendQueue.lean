/-
Sending on a connection: `CNetwork_Asio::send_data` and `CNetwork_Asio::ProcessSend`,
`core/src/cnetwork_asio.cpp`.

`ProcessSend` looks whether `discard_queue_` is empty under one mutex and hands the next
packet to `async_write` under another, so anyone may come in between. The steps here are
the sections between a lock and its unlock: of the callers of `send_data`, of the
completion handlers of the writes, and of the `ProcessSend` that both end with. What such
a call saw may be out of date by the time it uses it; `disciplined_iff` says that this is
all that can go wrong.

A buffer is named by its place in the order in which the buffers were queued. The
connection stays active and `OnSend` answers true.
-/
import OsIrose.Runs
import Mathlib.Data.List.Range
import Mathlib.Data.List.Nodup
import Mathlib.Tactic.Common

set_option autoImplicit false

namespace OsIrose.SendQueue

open Function Runs

/-- A call of `ProcessSend`: at the end of `send_data`, or of the handler of a write. -/
inductive Process
  | caller (n : ℕ)
  | handler (buffer : ℕ)
  deriving DecidableEq, Repr

/-- The next section of a call of `ProcessSend`. -/
inductive ProcessSend
  | idle
  /-- `discard_empty = discard_queue_.empty()`. -/
  | sample
  /-- The section under `send_mutex_`, with `discard_empty`. -/
  | send (discardEmpty : Bool)
  deriving DecidableEq, Repr

structure State where
  sendQueue : List ℕ := []
  discardQueue : List ℕ := []
  processSend : Process → ProcessSend := fun _ => .idle
  /-- The completion handlers that have yet to free a buffer. -/
  handlers : List ℕ := []
  /-- How many buffers were queued. -/
  queued : ℕ := 0
  /-- The buffers handed to `async_write`, the first one first. -/
  written : List ℕ := []
  /-- Those of writes that have not completed. -/
  inFlight : List ℕ := []
  completed : List ℕ := []
  /-- The buffers freed. -/
  released : List ℕ := []

inductive Event
  /-- A caller of `send_data` queues its packet. -/
  | queue (n : ℕ)
  | sample (p : Process)
  | send (p : Process)
  /-- A write completes and its handler is called. -/
  | complete (buffer : ℕ)
  /-- The section of a handler that frees a buffer. -/
  | release (buffer : ℕ)
  deriving Repr

namespace State

variable (s : State)

def goto (p : Process) (st : ProcessSend) : State :=
  { s with processSend := update s.processSend p st }

/-- `send_data`, up to `ProcessSend`. -/
def queue (n : ℕ) : State :=
  { s with sendQueue := s.sendQueue ++ [s.queued], queued := s.queued + 1 }.goto
    (.caller n) .sample

/-- The section of `ProcessSend` under `send_mutex_`. -/
def send (p : Process) (discardEmpty : Bool) : State :=
  match s.sendQueue, discardEmpty with
  | buffer :: rest, true =>
      { s with
        sendQueue := rest
        discardQueue := s.discardQueue ++ [buffer]
        written := s.written ++ [buffer]
        inFlight := s.inFlight ++ [buffer] }.goto p .idle
  | _, _ => s.goto p .idle

/-- A write completes. -/
def complete (buffer : ℕ) : State :=
  { s with
    inFlight := s.inFlight.erase buffer
    completed := s.completed ++ [buffer]
    handlers := s.handlers ++ [buffer] }

/-- A handler frees the front of `discard_queue_`, whatever it is, and calls
`ProcessSend`. -/
def release (buffer : ℕ) : State :=
  match s.discardQueue with
  | [] => s
  | front :: rest =>
      { s with
        handlers := s.handlers.erase buffer
        discardQueue := rest
        released := s.released ++ [front] }.goto (.handler buffer) .sample

end State

/-- The state after an event; one that cannot happen changes nothing. -/
def next (s : State) : Event → State
  | .queue n => if s.processSend (.caller n) = .idle then s.queue n else s
  | .sample p =>
      if s.processSend p = .sample then s.goto p (.send s.discardQueue.isEmpty) else s
  | .send p =>
      match s.processSend p with
      | .send discardEmpty => s.send p discardEmpty
      | _ => s
  | .complete buffer => if buffer ∈ s.inFlight then s.complete buffer else s
  | .release buffer => if buffer ∈ s.handlers then s.release buffer else s

/-- Nothing was sent yet. -/
def start : State := {}

/-! ## What holds whatever comes in between -/

/-- The invariant of every interleaving. -/
structure Inv (s : State) : Prop where
  order : s.written ++ s.sendQueue = List.range s.queued
  freed : s.written = s.released ++ s.discardQueue
  waits : ∀ b ∈ s.written, b ∈ s.inFlight ∨ b ∈ s.completed
  count : s.discardQueue.length = s.inFlight.length + s.handlers.length
  /-- Someone is about to see that a packet can be sent. -/
  wakes : s.sendQueue ≠ [] → s.discardQueue = [] →
    ∃ p, s.processSend p = .sample ∨ s.processSend p = .send true

/-- A handler finds a buffer to free. -/
theorem Inv.discardQueue_ne_nil {s : State} (h : Inv s) {buffer : ℕ} (hb : buffer ∈ s.handlers) :
    s.discardQueue ≠ [] := by
  -- each handler has a buffer of its own to free
  have hpos := List.length_pos_of_mem hb
  have hcount := h.count
  exact List.ne_nil_of_length_pos (by omega)

theorem inv_start : Inv start where
  order := rfl
  freed := rfl
  waits := by simp [start]
  count := rfl
  wakes := by simp [start]

section Step

variable {s : State}

theorem inv_queue (h : Inv s) (n : ℕ) : Inv (s.queue n) where
  order := by
    show s.written ++ (s.sendQueue ++ [s.queued]) = List.range (s.queued + 1)
    rw [← List.append_assoc, h.order, List.range_succ]
  freed := h.freed
  waits := h.waits
  count := h.count
  wakes := fun _ _ => ⟨.caller n, Or.inl (update_self _ _ _)⟩

theorem inv_sample (h : Inv s) {p : Process} :
    Inv (s.goto p (.send s.discardQueue.isEmpty)) where
  order := h.order
  freed := h.freed
  waits := h.waits
  count := h.count
  wakes := by
    intro _ hempty
    refine ⟨p, Or.inr ?_⟩
    have hempty : s.discardQueue = [] := hempty
    simp [State.goto, hempty]

/-- A call of `ProcessSend` that sends nothing. -/
theorem inv_idle (h : Inv s) {p : Process} {discardEmpty : Bool}
    (hp : s.processSend p = .send discardEmpty) (hnone : discardEmpty = true → s.sendQueue = []) :
    Inv (s.goto p .idle) where
  order := h.order
  freed := h.freed
  waits := h.waits
  count := h.count
  wakes := by
    intro hqueue hempty
    obtain ⟨q, hq⟩ := h.wakes hqueue hempty
    -- it is not this call that was about to send
    have hne : q ≠ p := by
      rintro rfl
      rw [hp] at hq
      rcases hq with hq | hq
      · exact absurd hq (by simp)
      · exact hqueue (hnone (ProcessSend.send.inj hq))
    refine ⟨q, ?_⟩
    simpa [State.goto, hne] using hq

theorem inv_send (h : Inv s) {p : Process} {discardEmpty : Bool}
    (hp : s.processSend p = .send discardEmpty) : Inv (s.send p discardEmpty) := by
  match hqueue : s.sendQueue, discardEmpty with
  | [], d =>
      simp only [State.send, hqueue]
      exact inv_idle h hp fun _ => hqueue
  | buffer :: rest, false =>
      simp only [State.send, hqueue]
      exact inv_idle h hp fun hd => absurd hd (by simp)
  | buffer :: rest, true =>
      simp only [State.send, hqueue]
      refine ⟨?_, ?_, ?_, ?_, ?_⟩
      · show s.written ++ [buffer] ++ rest = List.range s.queued
        rw [← h.order, hqueue, List.append_assoc]
        rfl
      · show s.written ++ [buffer] = s.released ++ (s.discardQueue ++ [buffer])
        rw [h.freed, List.append_assoc]
      · intro b hb
        show b ∈ s.inFlight ++ [buffer] ∨ b ∈ s.completed
        rcases List.mem_append.mp hb with hb | hb
        · exact (h.waits b hb).imp_left (List.mem_append_left _)
        · exact Or.inl (List.mem_append_right _ hb)
      · show (s.discardQueue ++ [buffer]).length =
          (s.inFlight ++ [buffer]).length + s.handlers.length
        have hcount := h.count
        simp only [List.length_append, List.length_singleton]
        omega
      · -- its buffer is in `discard_queue_`, so nobody has to be awake
        intro _ hempty
        exact absurd hempty (List.append_ne_nil_of_right_ne_nil _ (List.cons_ne_nil _ _))

theorem inv_complete (h : Inv s) {buffer : ℕ} (hb : buffer ∈ s.inFlight) :
    Inv (s.complete buffer) where
  order := h.order
  freed := h.freed
  waits := by
    intro b hwritten
    show b ∈ s.inFlight.erase buffer ∨ b ∈ s.completed ++ [buffer]
    rw [List.mem_append, List.mem_singleton]
    by_cases hbb : b = buffer
    · exact Or.inr (Or.inr hbb)
    · exact (h.waits b hwritten).imp ((List.mem_erase_of_ne hbb).mpr) Or.inl
  count := by
    show s.discardQueue.length = (s.inFlight.erase buffer).length + (s.handlers ++ [buffer]).length
    have hpos := List.length_pos_of_mem hb
    have hcount := h.count
    rw [List.length_erase_of_mem hb, List.length_append, List.length_singleton]
    omega
  wakes := h.wakes

theorem inv_release (h : Inv s) {buffer : ℕ} (hb : buffer ∈ s.handlers) :
    Inv (s.release buffer) := by
  obtain ⟨front, rest, hqueue⟩ := List.exists_cons_of_ne_nil (h.discardQueue_ne_nil hb)
  simp only [State.release, hqueue]
  refine ⟨h.order, ?_, h.waits, ?_, fun _ _ => ⟨.handler buffer, Or.inl (update_self _ _ _)⟩⟩
  · show s.written = s.released ++ [front] ++ rest
    rw [h.freed, hqueue, List.append_assoc]
    rfl
  · show rest.length = s.inFlight.length + (s.handlers.erase buffer).length
    have hpos := List.length_pos_of_mem hb
    have hcount := h.count
    rw [hqueue, List.length_cons] at hcount
    rw [List.length_erase_of_mem hb]
    omega

theorem inv_next (h : Inv s) (e : Event) : Inv (next s e) := by
  cases e with
  | queue n =>
      rw [next]
      split
      · exact inv_queue h n
      · exact h
  | sample p =>
      rw [next]
      split
      · exact inv_sample h
      · exact h
  | send p =>
      rw [next]
      split
      next discardEmpty hp => exact inv_send h hp
      · exact h
  | complete buffer =>
      rw [next]
      split
      next hb => exact inv_complete h hb
      · exact h
  | release buffer =>
      rw [next]
      split
      next hb => exact inv_release h hb
      · exact h

end Step

/-! ## The discipline -/

/-- At most one write is in flight; the packets are written in the order in which they were
queued, none skipped, none twice and none left behind; and a buffer was freed after its own
write. -/
structure Disciplined (s : State) : Prop where
  inFlight : s.inFlight.length ≤ 1
  order : s.written ++ s.sendQueue = List.range s.queued
  sent : (∀ p, s.processSend p = .idle) → s.inFlight = [] → s.handlers = [] → s.sendQueue = []
  released : ∀ b ∈ s.released, b ∈ s.completed

/-- What a call of `ProcessSend` saw is not out of date: if it hands a packet to
`async_write`, the writes of the buffers in `discard_queue_` have completed. -/
def upToDate (s : State) : Event → Prop
  | .send p => s.processSend p = .send true → s.sendQueue ≠ [] →
      ∀ b ∈ s.discardQueue, b ∈ s.completed
  | _ => True

/-- The buffers in `discard_queue_` are those of completed writes, and then the one in
flight. -/
structure Tidy (s : State) : Prop where
  inFlight : s.inFlight.length ≤ 1
  split : ∃ done, s.discardQueue = done ++ s.inFlight ∧ ∀ b ∈ done, b ∈ s.completed
  released : ∀ b ∈ s.released, b ∈ s.completed
  pending : ∀ b ∈ s.inFlight, b ∉ s.completed
  written : ∀ b ∈ s.completed, b ∈ s.written

theorem tidy_start : Tidy start where
  inFlight := Nat.zero_le 1
  split := ⟨[], rfl, by simp⟩
  released := by simp [start]
  pending := by simp [start]
  written := by simp [start]

section Step

variable {s : State}

/-- Packets that nobody sends are still on their way. -/
theorem Inv.sent (h : Inv s) (hidle : ∀ p, s.processSend p = .idle) (hflight : s.inFlight = [])
    (hhandlers : s.handlers = []) : s.sendQueue = [] := by
  by_contra hqueue
  have hcount := h.count
  rw [hflight, hhandlers] at hcount
  obtain ⟨p, hp⟩ := h.wakes hqueue (List.eq_nil_of_length_eq_zero hcount)
  rw [hidle p] at hp
  exact absurd hp (by simp)

theorem Tidy.disciplined (ht : Tidy s) (h : Inv s) : Disciplined s where
  inFlight := ht.inFlight
  order := h.order
  sent := h.sent
  released := ht.released

theorem tidy_send (ht : Tidy s) (h : Inv s) {p : Process} {discardEmpty : Bool}
    (hp : s.processSend p = .send discardEmpty) (hguard : upToDate s (.send p)) :
    Tidy (s.send p discardEmpty) := by
  match hqueue : s.sendQueue, discardEmpty with
  | [], _ =>
      simp only [State.send, hqueue]
      exact ⟨ht.inFlight, ht.split, ht.released, ht.pending, ht.written⟩
  | _ :: _, false =>
      simp only [State.send, hqueue]
      exact ⟨ht.inFlight, ht.split, ht.released, ht.pending, ht.written⟩
  | buffer :: rest, true =>
      have hdone := hguard hp (by simp [hqueue])
      -- what this call saw is true, so no write is in flight
      have hnone : s.inFlight = [] := by
        obtain ⟨done, hsplit, -⟩ := ht.split
        refine List.eq_nil_iff_forall_not_mem.mpr fun b hb => ht.pending b hb (hdone b ?_)
        exact hsplit ▸ List.mem_append_right _ hb
      -- a buffer that is queued was not written before
      have hfresh : buffer ∉ s.written := by
        have hnodup : (s.written ++ s.sendQueue).Nodup := h.order ▸ List.nodup_range
        rw [hqueue] at hnodup
        exact fun hb => (List.nodup_append.mp hnodup).2.2 buffer hb buffer List.mem_cons_self rfl
      simp only [State.send, hqueue]
      refine ⟨?_, ⟨s.discardQueue, ?_, hdone⟩, ht.released, ?_, ?_⟩
      · show (s.inFlight ++ [buffer]).length ≤ 1
        rw [hnone]
        exact le_refl 1
      · show s.discardQueue ++ [buffer] = s.discardQueue ++ (s.inFlight ++ [buffer])
        rw [hnone, List.nil_append]
      · intro b hb hcompleted
        have hb : b ∈ s.inFlight ++ [buffer] := hb
        rw [hnone, List.nil_append, List.mem_singleton] at hb
        exact hfresh (hb ▸ ht.written b hcompleted)
      · exact fun b hb => List.mem_append_left _ (ht.written b hb)

theorem tidy_complete (ht : Tidy s) (h : Inv s) {buffer : ℕ} (hb : buffer ∈ s.inFlight) :
    Tidy (s.complete buffer) := by
  obtain ⟨done, hsplit, hdone⟩ := ht.split
  -- the write that completes is the only one
  have hflight : s.inFlight = [buffer] := by
    obtain ⟨b, hone⟩ := List.length_eq_one_iff.mp
      (le_antisymm ht.inFlight (List.length_pos_of_mem hb))
    rw [hone, List.mem_singleton] at hb
    rw [hone, hb]
  have hnone : s.inFlight.erase buffer = [] := by
    rw [hflight, List.erase_cons_head]
  refine ⟨?_, ⟨done ++ [buffer], ?_, ?_⟩, ?_, ?_, ?_⟩
  · show (s.inFlight.erase buffer).length ≤ 1
    simp [hnone]
  · show s.discardQueue = done ++ [buffer] ++ s.inFlight.erase buffer
    rw [hsplit, hnone, hflight, List.append_nil]
  · intro b hb
    exact (List.mem_append.mp hb).elim (fun hb => List.mem_append_left _ (hdone b hb))
      (List.mem_append_right _)
  · exact fun b hb => List.mem_append_left _ (ht.released b hb)
  · intro b hb
    have hb : b ∈ s.inFlight.erase buffer := hb
    rw [hnone] at hb
    exact absurd hb List.not_mem_nil
  · intro b hb'
    rcases List.mem_append.mp hb' with hb' | hb'
    · exact ht.written b hb'
    · rw [List.mem_singleton.mp hb']
      show buffer ∈ s.written
      rw [h.freed, hsplit]
      exact List.mem_append_right _ (List.mem_append_right _ hb)

theorem tidy_release (ht : Tidy s) (h : Inv s) {buffer : ℕ} (hb : buffer ∈ s.handlers) :
    Tidy (s.release buffer) := by
  obtain ⟨done, hsplit, hdone⟩ := ht.split
  -- there are as many handlers as buffers of completed writes
  have hlength : done.length = s.handlers.length := by
    have hcount := h.count
    rw [hsplit, List.length_append] at hcount
    omega
  obtain ⟨front, rest, rfl⟩ := List.exists_cons_of_length_pos
    (hlength ▸ List.length_pos_of_mem hb)
  rw [List.cons_append] at hsplit
  simp only [State.release, hsplit]
  refine ⟨ht.inFlight, ⟨rest, rfl, fun b hb => hdone b (List.mem_cons_of_mem _ hb)⟩, ?_,
    ht.pending, ht.written⟩
  intro b hb
  rcases List.mem_append.mp hb with hb | hb
  · exact ht.released b hb
  · exact List.mem_singleton.mp hb ▸ hdone front List.mem_cons_self

theorem tidy_next (ht : Tidy s) (h : Inv s) {e : Event} (hguard : upToDate s e) :
    Tidy (next s e) := by
  cases e with
  | queue n =>
      rw [next]
      split
      · exact ⟨ht.inFlight, ht.split, ht.released, ht.pending, ht.written⟩
      · exact ht
  | sample p =>
      rw [next]
      split
      · exact ⟨ht.inFlight, ht.split, ht.released, ht.pending, ht.written⟩
      · exact ht
  | send p =>
      rw [next]
      split
      next hp => exact tidy_send ht h hp hguard
      · exact ht
  | complete buffer =>
      rw [next]
      split
      next hb => exact tidy_complete ht h hb
      · exact ht
  | release buffer =>
      rw [next]
      split
      next hb => exact tidy_release ht h hb
      · exact ht

/-- A second write is in flight after a call of `ProcessSend` that was out of date. -/
theorem upToDate_of_disciplined (h : Inv s) {e : Event} (hnext : Disciplined (next s e)) :
    upToDate s e := by
  match e with
  | .queue _ | .sample _ | .complete _ | .release _ => exact trivial
  | .send p =>
      intro hp hqueue b hb
      obtain ⟨buffer, rest, hqueue⟩ := List.exists_cons_of_ne_nil hqueue
      -- this write is the only one after the step, so there was none before
      have hflight : (s.inFlight ++ [buffer]).length ≤ 1 := by
        simpa only [next, hp, State.send, hqueue, State.goto] using hnext.inFlight
      have hnone : s.inFlight = [] := by
        rw [List.length_append, List.length_singleton] at hflight
        exact List.eq_nil_of_length_eq_zero (by omega)
      have hwritten : b ∈ s.written := h.freed ▸ List.mem_append_right _ hb
      refine (h.waits b hwritten).resolve_left ?_
      rw [hnone]
      exact List.not_mem_nil

end Step

/-- **The discipline of the send queue** holds in every state of a run if and only if no call
of `ProcessSend` in it acts on what is out of date. -/
theorem disciplined_iff (es : List Event) :
    (∀ p, p <+: es → Disciplined (p.foldl next start)) ↔
      ∀ p e, p ++ [e] <+: es → upToDate (p.foldl next start) e := by
  refine foldl_reached_iff_of_strong ?_ ?_ ?_ ?_ inv_start tidy_start es
  · exact fun _ e h => inv_next h e
  · exact fun _ _ h ht hguard => tidy_next ht h hguard
  · exact fun _ h ht => ht.disciplined h
  · exact fun _ _ h _ hnext => upToDate_of_disciplined h hnext

/-- Two callers that both find `discard_queue_` empty: both write. -/
theorem two_in_flight : ¬ ∀ es p, p <+: es → Disciplined (p.foldl next start) := by
  intro h
  have hdisciplined := h [.queue 0, .queue 1, .sample (.caller 0), .sample (.caller 1),
    .send (.caller 0), .send (.caller 1)] _ (List.prefix_refl _)
  exact absurd hdisciplined.inFlight (by decide)

end OsIrose.SendQueue

/-
Packet dispatch on the map server: `map/include/systemmanager.h` and
`map/src/entitysystem.cpp`.

`EntitySystem::dispatch` queues a packet of an entity; `EntitySystem::update` later
takes the packets off the queue and hands each to `SystemManager::dispatch`, which calls
the handlers registered for its type and erases every handler that answers `false`. A
handler answers `false` when its system is gone, and in two more cases that say nothing
about the handler: the entity has been destroyed, or its client object is gone.

Between `dispatch` and `update`, and between two handlers of one packet, other threads
run, so the loop of `SystemManager::dispatch` is split into its single calls here (`pop`,
`call`, `finish`) and every other event may come between them. The answer of
`SystemManager::dispatch` is left out: `update` does not look at it, and after the first
handler has been erased it is computed from an iterator that is no longer valid.
-/
import OsIrose.Runs
import Mathlib.Data.List.Perm.Subperm

set_option autoImplicit false

namespace OsIrose.Dispatch

open Runs

/-- The underlying type of `ePacketType`. -/
abbrev PacketType := BitVec 16

/-- An `Entity` handle. -/
abbrev Entity := ℕ

/-- A system, by its `typeid`. -/
abbrev System := ℕ

/-- An entry of `dispatch_`: the packet type, and the system and method it calls. -/
structure Handler where
  type : PacketType
  system : System
  method : ℕ
  deriving DecidableEq, Repr

/-- The handlers registered by the systems that are there. No system is removed. -/
structure Registry where
  systems : System → Bool
  handlers : List Handler
  present : ∀ h ∈ handlers, systems h.system = true

/-- A packet that `SystemManager::dispatch` is working on, and the handlers it has not
called yet. -/
structure Visit where
  entity : Entity
  type : PacketType
  remaining : List Handler

/-- What the events read and write. -/
structure State where
  systems : System → Bool
  /-- `dispatch_`. -/
  handlers : List Handler
  /-- `operator bool` of an entity. -/
  valid : Entity → Bool
  /-- Whether `getClient(entity)` finds a client object. -/
  client : Entity → Bool
  toDispatch : List (Entity × PacketType)
  visit : Option Visit

/-- The map server before any player is on it. -/
def start (reg : Registry) : State where
  systems := reg.systems
  handlers := reg.handlers
  valid := fun _ => false
  client := fun _ => false
  toDispatch := []
  visit := none

/-- The entries of `dispatch_` for a type, `equal_range(type)`. -/
def handlersOf (handlers : List Handler) (t : PacketType) : List Handler :=
  handlers.filter (fun h => h.type = t)

/-- `SystemManager::wouldDispatch`. -/
def wouldDispatch (handlers : List Handler) (t : PacketType) : Bool :=
  0 < (handlersOf handlers t).length

/-- The answer of the function that `registerDispatcher` puts in `dispatch_`; it has
called its method if and only if it answers `true`. -/
def answer (s : State) (e : Entity) (h : Handler) : Bool :=
  if s.systems h.system then
    -- the entity was destroyed in the meantime
    if !s.valid e then false
    else if s.client e then true
    -- `getClient(entity)` finds nothing
    else false
  -- the system is gone
  else false

/-- The methods that are called for a packet of type `t` of `e`. -/
def reached (s : State) (e : Entity) (t : PacketType) : List Handler :=
  (handlersOf s.handlers t).filter (answer s e)

inductive Event
  /-- An entity is created; a player's one has a client object. -/
  | create (e : Entity) (client : Bool)
  /-- `entity.destroy()`. -/
  | destroy (e : Entity)
  /-- The client object of an entity is released. -/
  | disconnect (e : Entity)
  /-- `EntitySystem::dispatch`. -/
  | dispatch (e : Entity) (t : PacketType)
  /-- `update` takes the next packet, `SystemManager::dispatch` looks its type up. -/
  | pop
  /-- `SystemManager::dispatch` calls the next handler. -/
  | call
  /-- `SystemManager::dispatch` returns. -/
  | finish
  deriving DecidableEq, Repr

/-- The state after one event, if it can happen. -/
def next (s : State) : Event → Option State
  | .create e client =>
      some { s with
        valid := Function.update s.valid e true
        client := Function.update s.client e client }
  | .destroy e => some { s with valid := Function.update s.valid e false }
  | .disconnect e => some { s with client := Function.update s.client e false }
  | .dispatch e t =>
      if s.valid e && wouldDispatch s.handlers t then
        some { s with toDispatch := s.toDispatch ++ [(e, t)] }
      else some s
  | .pop =>
      match s.visit, s.toDispatch with
      | none, (e, t) :: rest =>
          some { s with
            toDispatch := rest
            visit := some ⟨e, t, handlersOf s.handlers t⟩ }
      | _, _ => none
  | .call =>
      match s.visit with
      | some ⟨e, t, h :: rest⟩ =>
          -- `it = dispatch_.erase(it)`
          if answer s e h then some { s with visit := some ⟨e, t, rest⟩ }
          else some { s with handlers := s.handlers.erase h, visit := some ⟨e, t, rest⟩ }
      | _ => none
  | .finish =>
      match s.visit with
      | some ⟨_, _, []⟩ => some { s with visit := none }
      | _ => none

def Step (s : State) (ev : Event) (s' : State) : Prop := next s ev = some s'

/-! ## The registry -/

/-- **The handlers are all still there**, and do what they did: the same multiset is
registered, `wouldDispatch` answers the same, and a packet of a live client reaches
them all. -/
structure Intact (reg : Registry) (s : State) : Prop where
  handlers : s.handlers.Perm reg.handlers
  wouldDispatch : ∀ t, wouldDispatch s.handlers t = wouldDispatch reg.handlers t
  reached : ∀ e t, s.valid e = true → s.client e = true →
    (reached s e t).Perm (handlersOf reg.handlers t)

/-- **The condition on a step**: when a handler is called, the entity of the packet is
valid and its client object is there. -/
def ClientThere (s : State) (ev : Event) : Prop :=
  ∀ v, ev = .call → s.visit = some v → s.valid v.entity = true ∧ s.client v.entity = true

/-- What holds of every reachable state: nothing is ever added to the registry, and what
is still to be called was registered. -/
structure Inv (reg : Registry) (s : State) : Prop where
  systems : s.systems = reg.systems
  handlers : s.handlers.Subperm reg.handlers
  remaining : ∀ v, s.visit = some v → ∀ h ∈ v.remaining, h ∈ reg.handlers

section

variable {reg : Registry} {s s' : State} {ev : Event}

/-- Of a system that is there, a handler answers for entity and client. -/
theorem answer_eq (hs : s.systems = reg.systems) (e : Entity) {h : Handler}
    (hh : h ∈ reg.handlers) : answer s e h = (s.valid e && s.client e) := by
  unfold answer
  rw [hs, if_pos (reg.present h hh)]
  cases s.valid e <;> cases s.client e <;> rfl

/-- The multiset decides the rest. -/
theorem intact_iff (hi : Inv reg s) : Intact reg s ↔ s.handlers.Perm reg.handlers := by
  refine ⟨fun h => h.handlers, fun h => ⟨h, ?_, ?_⟩⟩
  · intro t
    unfold wouldDispatch handlersOf
    rw [(h.filter _).length_eq]
  · intro e t hv hc
    have hall : reached s e t = handlersOf s.handlers t := by
      unfold reached
      rw [List.filter_eq_self]
      intro g hg
      have hreg : g ∈ reg.handlers := h.subset (List.mem_of_mem_filter hg)
      rw [answer_eq hi.systems e hreg, hv, hc]
      rfl
    rw [hall]
    exact h.filter _

/-- A call visits the next handler, and erases it if it answers `false`. -/
theorem step_call (hstep : Step s .call s') :
    ∃ e t h rest, s.visit = some ⟨e, t, h :: rest⟩ ∧
      s'.systems = s.systems ∧ s'.visit = some ⟨e, t, rest⟩ ∧
      s'.handlers = if answer s e h then s.handlers else s.handlers.erase h := by
  unfold Step next at hstep
  dsimp only at hstep
  split at hstep
  next e t h rest hvisit =>
    refine ⟨e, t, h, rest, hvisit, ?_⟩
    by_cases hans : answer s e h = true
    · rw [if_pos hans] at hstep ⊢
      obtain rfl := Option.some.inj hstep
      exact ⟨rfl, rfl, rfl⟩
    · rw [if_neg hans] at hstep ⊢
      obtain rfl := Option.some.inj hstep
      exact ⟨rfl, rfl, rfl⟩
  next => cases hstep

/-- Every other event leaves the registry alone; a visit begins with the handlers
registered then. -/
theorem step_of_ne_call (hstep : Step s ev s') (hev : ev ≠ .call) :
    s'.systems = s.systems ∧ s'.handlers = s.handlers ∧
      ∀ v, s'.visit = some v → s.visit = some v ∨ v.remaining ⊆ s.handlers := by
  unfold Step next at hstep
  cases ev with
  | create e client =>
      obtain rfl := Option.some.inj hstep
      exact ⟨rfl, rfl, fun v hv => Or.inl hv⟩
  | destroy e =>
      obtain rfl := Option.some.inj hstep
      exact ⟨rfl, rfl, fun v hv => Or.inl hv⟩
  | disconnect e =>
      obtain rfl := Option.some.inj hstep
      exact ⟨rfl, rfl, fun v hv => Or.inl hv⟩
  | dispatch e t =>
      dsimp only at hstep
      split at hstep
      · obtain rfl := Option.some.inj hstep
        exact ⟨rfl, rfl, fun v hv => Or.inl hv⟩
      · obtain rfl := Option.some.inj hstep
        exact ⟨rfl, rfl, fun v hv => Or.inl hv⟩
  | pop =>
      dsimp only at hstep
      split at hstep
      next e t rest _ _ =>
        obtain rfl := Option.some.inj hstep
        refine ⟨rfl, rfl, fun v hv => ?_⟩
        right
        obtain rfl := Option.some.inj hv
        exact fun g hg => List.mem_of_mem_filter hg
      next => cases hstep
  | call => exact absurd rfl hev
  | finish =>
      dsimp only at hstep
      split at hstep
      next =>
        obtain rfl := Option.some.inj hstep
        exact ⟨rfl, rfl, fun v hv => nomatch hv⟩
      next => cases hstep

theorem inv_start (reg : Registry) : Inv reg (start reg) :=
  ⟨rfl, List.Subperm.refl _, fun _ hv => nomatch hv⟩

theorem inv_step (hi : Inv reg s) (hstep : Step s ev s') : Inv reg s' := by
  by_cases hev : ev = .call
  · subst hev
    obtain ⟨e, t, h, rest, hvisit, hsys, hvisit', hhandlers⟩ := step_call hstep
    refine ⟨hsys.trans hi.systems, ?_, ?_⟩
    · rw [hhandlers]
      split
      · exact hi.handlers
      · exact (List.erase_sublist.subperm).trans hi.handlers
    · intro v hv g hg
      rw [hvisit'] at hv
      obtain rfl := Option.some.inj hv
      exact hi.remaining _ hvisit g (List.mem_cons_of_mem h hg)
  · obtain ⟨hsys, hhandlers, hvisit⟩ := step_of_ne_call hstep hev
    refine ⟨hsys.trans hi.systems, ?_, ?_⟩
    · rw [hhandlers]
      exact hi.handlers
    · intro v hv g hg
      rcases hvisit v hv with hold | hnew
      · exact hi.remaining v hold g hg
      · exact hi.handlers.subset (hnew hg)

/-- The registry only loses handlers. -/
theorem perm_of_step (hi : Inv reg s) (hstep : Step s ev s')
    (h : s'.handlers.Perm reg.handlers) : s.handlers.Perm reg.handlers := by
  by_cases hev : ev = .call
  · -- a sublist of the registry that is as long as it
    subst hev
    obtain ⟨e, t, g, rest, -, -, -, hhandlers⟩ := step_call hstep
    apply hi.handlers.perm_of_length_le
    rw [← h.length_eq, hhandlers]
    split
    · exact Nat.le_refl _
    · exact List.erase_sublist.length_le
  · rw [(step_of_ne_call hstep hev).2.1] at h
    exact h

/-- **One event keeps the registry exactly when the client is there.** -/
theorem perm_step_iff (hi : Inv reg s) (h : s.handlers.Perm reg.handlers)
    (hstep : Step s ev s') : s'.handlers.Perm reg.handlers ↔ ClientThere s ev := by
  by_cases hev : ev = .call
  · subst hev
    obtain ⟨e, t, g, rest, hvisit, -, -, hhandlers⟩ := step_call hstep
    have hg : g ∈ reg.handlers := hi.remaining _ hvisit g List.mem_cons_self
    have hans := answer_eq hi.systems e hg
    have hthere : ClientThere s .call ↔ answer s e g = true := by
      rw [hans, Bool.and_eq_true]
      constructor
      · intro hc
        exact hc _ rfl hvisit
      · intro hc v _ hv
        rw [hvisit] at hv
        obtain rfl := Option.some.inj hv
        exact hc
    rw [hthere, hhandlers]
    constructor
    · intro hperm
      by_contra hne
      -- the handler is in the registry, so erasing it makes the registry shorter
      rw [if_neg hne] at hperm
      have hlen := hperm.length_eq.trans h.length_eq.symm
      have hmem : g ∈ s.handlers := h.symm.subset hg
      have hpos : 0 < s.handlers.length := List.length_pos_of_mem hmem
      rw [List.length_erase_of_mem hmem] at hlen
      omega
    · intro htrue
      rw [if_pos htrue]
      exact h
  · rw [(step_of_ne_call hstep hev).2.1]
    refine ⟨fun _ v hcall => absurd hcall hev, fun _ => h⟩

/-- **The registry survives exactly as long as no packet outlives its client.** Along
every run, for any number of clients and any order of packets, disconnections, entity
deaths and ticks. -/
theorem intact_iff_clientThere {evs : List Event} (h : Run Step (start reg) evs s) :
    Intact reg s ↔ Run (Guarded ClientThere Step) (start reg) evs s := by
  have hinv : ∀ s ev s', Inv reg s → Step s ev s' → Inv reg s' :=
    fun _ _ _ hi hstep => inv_step hi hstep
  have hreach : Inv reg s := h.state_invariant (inv_start reg) hinv
  rw [intact_iff hreach]
  have hback : ∀ s ev s', Inv reg s → Step s ev s' → s'.handlers.Perm reg.handlers →
      s.handlers.Perm reg.handlers := fun _ _ _ hi hstep hp => perm_of_step hi hstep hp
  have hguard : ∀ s ev s', Inv reg s → s.handlers.Perm reg.handlers → Step s ev s' →
      (s'.handlers.Perm reg.handlers ↔ ClientThere s ev) :=
    fun _ _ _ hi hp hstep => perm_step_iff hi hp hstep
  exact @run_guarded_iff _ _ Step (start reg) (Inv reg)
    (fun s => s.handlers.Perm reg.handlers) ClientThere hinv hback hguard (inv_start reg)
    (List.Perm.refl _) evs s h

end

/-- One chat handler. -/
def chatRegistry : Registry where
  systems := fun _ => true
  handlers := [⟨0x783, 0, 0⟩]
  present := fun _ _ => rfl

/-- A chat packet of a player who is there. -/
theorem intact_iff_clientThere_sample :
    ∃ s, s.handlers = chatRegistry.handlers ∧
      (Intact chatRegistry s ↔ Run (Guarded ClientThere Step) (start chatRegistry)
        [.create 1 true, .dispatch 1 0x783, .pop, .call, .finish] s) := by
  obtain ⟨s, hrun, hs⟩ : ∃ s, [Event.create 1 true, .dispatch 1 0x783, .pop, .call,
      .finish].foldlM next (start chatRegistry) = some s ∧
        s.handlers = chatRegistry.handlers := ⟨_, rfl, rfl⟩
  exact ⟨s, hs, intact_iff_clientThere (Run.of_foldlM hrun)⟩

/-- A player disconnects between sending a chat packet and the next tick: no chat packet
of anyone is handled any more. -/
theorem not_intact_sample :
    ¬ ∀ (reg : Registry) (evs : List Event) (s : State), Run Step (start reg) evs s →
      Intact reg s := by
  intro h
  obtain ⟨s, hrun, hs⟩ : ∃ s, [Event.create 1 true, .dispatch 1 0x783, .disconnect 1, .pop,
      .call].foldlM next (start chatRegistry) = some s ∧ s.handlers = [] := ⟨_, rfl, rfl⟩
  have hperm := (h _ _ _ (Run.of_foldlM hrun)).handlers
  rw [hs] at hperm
  exact absurd hperm.length_eq (by decide)

end OsIrose.Dispatch

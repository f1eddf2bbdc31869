/-
The thread pool of the network: `core/include/threadpool.h`.

A step is a section under `queue_mutex`, a notification, a wake-up or the end of a task, so a
run is an interleaving of the workers, of any number of threads that call `enqueue` and of the
destructor. A thread in `enqueue` notifies after it has left the mutex, so for a while there may
be a task that no worker has been told of.

What a worker takes is what was queued first, once (`Pool.Inv.fifo`). No wake-up is lost: while
a worker sleeps, there are as many workers on their way to the queue, or notifications to be
sent, as there are tasks (`Pool.Inv.awake`). So where no step is left, all tasks are done
and all threads have ended if the destructor was called (`work_done`).
-/
import Mathlib.Algebra.BigOperators.Group.Finset.Piecewise
import Mathlib.Algebra.GroupWithZero.Nat
import Mathlib.Algebra.Order.BigOperators.Group.Finset
import Mathlib.Data.Fintype.BigOperators
import OsIrose.Runs

set_option autoImplicit false

namespace OsIrose.ThreadPool

open Function (update)
open Runs (Run)

/-! ## Sums over the workers -/

variable {ι α M : Type*} [Fintype ι] [DecidableEq ι] [AddCommMonoid M]

/-- One summand changes. -/
theorem sum_add_of_eq_off {f g : ι → M} (i : ι) (h : ∀ j, j ≠ i → f j = g j) :
    ∑ j, f j + g i = ∑ j, g j + f i := by
  have hrest : ∑ j ∈ Finset.univ \ {i}, f j = ∑ j ∈ Finset.univ \ {i}, g j :=
    Finset.sum_congr rfl fun j hj => h j (by simpa using hj)
  rw [← Finset.sum_sdiff (Finset.subset_univ {i}), hrest,
    ← Finset.sum_sdiff (Finset.subset_univ {i}) (f := g), Finset.sum_singleton,
    Finset.sum_singleton, add_right_comm]

theorem sum_update_add (g : α → M) (f : ι → α) (i : ι) (a : α) :
    ∑ j, g (update f i a j) + g (f i) = ∑ j, g (f j) + g a := by
  have hsum := sum_add_of_eq_off (f := fun j => g (update f i a j)) (g := fun j => g (f j)) i
    fun j hj => by rw [Function.update_of_ne hj]
  rwa [Function.update_self] at hsum

/-! ## The pool -/

/-- Where a worker is. -/
inductive Worker (τ : Type*)
  /-- At the top of its loop or woken up: it takes the mutex next. -/
  | ready
  /-- In `condition.wait`. -/
  | waiting
  | running (task : τ)
  | returned

/-- Where the destructor is: `stop` is set, everybody has been notified, all are joined. -/
inductive Destructor
  | notCalled
  | stopped
  | joining
  | joined
  deriving DecidableEq

/-- What there is to do for the destructor, with `n` workers. -/
def Destructor.steps (n : ℕ) : Destructor → ℕ
  | .stopped => n + 2
  | .joining => 1
  | _ => 0

namespace Worker

variable {τ : Type*}

def isWaiting : Worker τ → Bool
  | waiting => true
  | _ => false

def isReturned : Worker τ → Bool
  | returned => true
  | _ => false

@[simp] theorem isWaiting_iff {x : Worker τ} : x.isWaiting = true ↔ x = waiting := by
  cases x <;> simp [isWaiting]

@[simp] theorem isReturned_iff {x : Worker τ} : x.isReturned = true ↔ x = returned := by
  cases x <;> simp [isReturned]

/-- What `notify_all` does. -/
def woken : Worker τ → Worker τ
  | waiting => ready
  | w => w

/-- The task it is at. -/
def task : Worker τ → Multiset τ
  | running t => {t}
  | _ => 0

/-- On its way to the queue. -/
def awake : Worker τ → ℕ
  | ready => 1
  | _ => 0

/-- The steps that it can take without a task from the queue. -/
def steps : Worker τ → ℕ
  | ready => 1
  | running _ => 2
  | _ => 0

end Worker

structure Pool (ω τ : Type*) where
  workers : ω → Worker τ
  tasks : List τ
  destructor : Destructor
  /-- The threads in `enqueue` between the mutex and `notify_one`. -/
  toNotify : ℕ
  /-- The tasks that `enqueue` has taken, in order. -/
  accepted : List τ
  /-- The tasks that workers have taken, in order. -/
  started : List τ
  finished : List τ

inductive Event (ω τ : Type*)
  | enqueue (task : τ)
  /-- `notify_one`; the thread that it wakes up, if one is waiting. -/
  | notifyOne (woken : Option ω)
  /-- A wake-up for no reason. -/
  | wake (w : ω)
  /-- The section of a worker under the mutex. -/
  | work (w : ω)
  | finish (w : ω)
  /-- The destructor up to the end of its section. -/
  | stop
  | notifyAll
  | join

namespace Event

variable {ω τ : Type*}

def isStop : Event ω τ → Bool
  | stop => true
  | _ => false

/-- The task of an `enqueue`. -/
def task? : Event ω τ → Option τ
  | enqueue task => some task
  | _ => none

/-- Neither the queue nor the tasks of the workers change. -/
def isQuiet : Event ω τ → Bool
  | notifyOne _ | wake _ | stop | notifyAll | join => true
  | _ => false

/-- What the pool does by itself. -/
def isProgress : Event ω τ → Bool
  | notifyOne _ | work _ | finish _ | notifyAll | join => true
  | _ => false

/-- The steps that there are to do because of an event, with `n` workers. -/
def cost (n : ℕ) : Event ω τ → ℕ
  | enqueue _ => 4
  | wake _ => 1
  | stop => n + 2
  | _ => 0

end Event

/-- The tasks of the calls of `enqueue` before the pool is stopped. -/
def acceptedIn {ω τ : Type*} (es : List (Event ω τ)) : List τ :=
  (es.takeWhile fun e => !e.isStop).filterMap Event.task?

namespace Pool

variable {ω τ : Type*} [DecidableEq ω]

/-- `ThreadPool(threads)` -/
def init (ω τ : Type*) : Pool ω τ where
  workers _ := .ready
  tasks := []
  destructor := .notCalled
  toNotify := 0
  accepted := []
  started := []
  finished := []

/-- The flag `stop`. -/
def stop (p : Pool ω τ) : Prop := p.destructor ≠ .notCalled

instance (p : Pool ω τ) : Decidable p.stop := inferInstanceAs (Decidable (_ ≠ _))

/-- A worker goes on. -/
def set (p : Pool ω τ) (w : ω) (x : Worker τ) : Pool ω τ :=
  { p with workers := update p.workers w x }

/-- A worker takes the mutex: it looks whether it has to wait, then whether it has to end. -/
def work (p : Pool ω τ) (w : ω) : Pool ω τ :=
  match p.tasks with
  | task :: tasks => { p.set w (.running task) with tasks, started := p.started ++ [task] }
  | [] => p.set w (if p.stop then .returned else .waiting)

/-- The section of `enqueue` under the mutex, if it does not throw. -/
def accept (p : Pool ω τ) (task : τ) : Pool ω τ :=
  { p with tasks := p.tasks ++ [task], accepted := p.accepted ++ [task],
           toNotify := p.toNotify + 1 }

variable [Fintype ω]

/-- The state after an event, if it can happen. -/
def step (p : Pool ω τ) : Event ω τ → Option (Pool ω τ)
  -- on a stopped pool `enqueue` throws
  | .enqueue task => if p.stop then some p else some (p.accept task)
  | .notifyOne (some w) =>
      if 0 < p.toNotify ∧ (p.workers w).isWaiting then
        some { p.set w .ready with toNotify := p.toNotify - 1 }
      else none
  | .notifyOne none =>
      if 0 < p.toNotify ∧ ∀ w, ¬ (p.workers w).isWaiting then
        some { p with toNotify := p.toNotify - 1 }
      else none
  | .wake w => if (p.workers w).isWaiting then some (p.set w .ready) else none
  | .work w =>
      match p.workers w with
      | .ready => some (p.work w)
      | _ => none
  | .finish w =>
      match p.workers w with
      | .running task => some { p.set w .ready with finished := p.finished ++ [task] }
      | _ => none
  | .stop => if p.stop then none else some { p with destructor := .stopped }
  | .notifyAll =>
      if p.destructor = .stopped then
        some { p with workers := fun w => (p.workers w).woken, destructor := .joining }
      else none
  | .join =>
      if p.destructor = .joining ∧ ∀ w, (p.workers w).isReturned then
        some { p with destructor := .joined }
      else none

/-- The steps of the pool. -/
def Step (p : Pool ω τ) (e : Event ω τ) (p' : Pool ω τ) : Prop := p.step e = some p'

/-! ## The invariant -/

/-- The workers on their way to the queue. -/
def awake (p : Pool ω τ) : ℕ := ∑ w, (p.workers w).awake

/-- The tasks that workers are at. -/
def current (p : Pool ω τ) : Multiset τ := ∑ w, (p.workers w).task

structure Inv (p : Pool ω τ) : Prop where
  /-- The tasks that were taken from the queue and those in it are the tasks that were put
  there, in order. -/
  fifo : p.started ++ p.tasks = p.accepted
  /-- A task that was taken is done, or one worker is at it. -/
  current : (p.started : Multiset τ) = p.finished + p.current
  /-- While a worker sleeps, enough are on their way. -/
  awake : ∀ w, p.workers w = .waiting → p.tasks.length ≤ p.toNotify + p.awake
  returned : ∀ w, p.workers w = .returned → p.stop ∧ p.tasks = []
  /-- After `notify_all` nobody sleeps. -/
  notified : p.destructor = .joining ∨ p.destructor = .joined → ∀ w, p.workers w ≠ .waiting
  joined : p.destructor = .joined → ∀ w, p.workers w = .returned

omit [DecidableEq ω] in
theorem inv_init : (init ω τ).Inv where
  fifo := rfl
  current := by simp [init, current, Worker.task]
  awake w h := by cases h
  returned w h := by cases h
  notified h := by rcases h with h | h <;> cases h
  joined h := by cases h

section Set

variable {p : Pool ω τ} {w : ω} {x : Worker τ}

theorem awake_set (hx : p.workers w = x) (y : Worker τ) :
    (p.set w y).awake + x.awake = p.awake + y.awake :=
  hx ▸ sum_update_add Worker.awake p.workers w y

theorem current_set (hx : p.workers w = x) (y : Worker τ) :
    (p.set w y).current + x.task = p.current + y.task :=
  hx ▸ sum_update_add Worker.task p.workers w y

omit [Fintype ω] in
theorem set_workers_eq {v : ω} {y z : Worker τ} (hne : y ≠ z) (hv : (p.set w y).workers v = z) :
    p.workers v = z := by
  have hv' : update p.workers w y v = z := hv
  by_cases h : v = w
  · rw [h, Function.update_self] at hv'
    exact absurd hv' hne
  · rwa [Function.update_of_ne h] at hv'

end Set

section Steps

variable {p p' : Pool ω τ} {w : ω}

omit [DecidableEq ω] in
theorem Inv.accept (h : p.Inv) (task : τ) (hstop : ¬ p.stop) : (p.accept task).Inv where
  fifo := by
    show p.started ++ (p.tasks ++ [task]) = p.accepted ++ [task]
    rw [← List.append_assoc, h.fifo]
  current := h.current
  awake v hv := by
    -- the task comes with a notification that is still to be sent
    have hle := h.awake v hv
    show (p.tasks ++ [task]).length ≤ p.toNotify + 1 + p.awake
    rw [List.length_append, List.length_singleton]
    omega
  returned v hv := absurd (h.returned v hv).1 hstop
  notified := h.notified
  joined := h.joined

/-- A worker is woken up, with the notifications that are left. -/
theorem Inv.wake (h : p.Inv) (hw : p.workers w = .waiting) (n : ℕ) (hn : p.toNotify ≤ n + 1) :
    Inv { p.set w .ready with toNotify := n } where
  fifo := h.fifo
  current := by
    have hset : (p.set w .ready).current = p.current := by
      simpa [Worker.task] using current_set hw .ready
    exact hset ▸ h.current
  awake v hv := by
    -- one notification less, and one worker more on its way
    have hle := h.awake v (set_workers_eq (by simp) hv)
    have hset : (p.set w .ready).awake + 0 = p.awake + 1 := awake_set hw .ready
    show p.tasks.length ≤ n + (p.set w .ready).awake
    omega
  returned v hv := h.returned v (set_workers_eq (by simp) hv)
  notified hd v hv := h.notified hd v (set_workers_eq (by simp) hv)
  joined hd v := by
    -- in a joined pool nobody waits
    have := h.joined hd w
    rw [hw] at this
    cases this

/-- A worker that was ready takes a task. -/
theorem Inv.take (h : p.Inv) (hw : p.workers w = .ready) {task : τ} {tasks : List τ}
    (htasks : p.tasks = task :: tasks) :
    Inv { p.set w (.running task) with tasks, started := p.started ++ [task] } where
  fifo := by
    show (p.started ++ [task]) ++ tasks = p.accepted
    rw [List.append_assoc, List.singleton_append, ← htasks, h.fifo]
  current := by
    have hset : (p.set w (.running task)).current = p.current + {task} := by
      simpa [Worker.task] using current_set hw (.running task)
    show ((p.started ++ [task] : List τ) : Multiset τ) =
      p.finished + (p.set w (.running task)).current
    rw [hset, ← add_assoc, ← h.current, ← Multiset.coe_add, Multiset.coe_singleton]
  awake v hv := by
    -- one worker less on its way, and one task less in the queue
    have hle := h.awake v (set_workers_eq (by simp) hv)
    have hset : (p.set w (.running task)).awake + 1 = p.awake + 0 := awake_set hw (.running task)
    rw [htasks, List.length_cons] at hle
    show tasks.length ≤ p.toNotify + (p.set w (.running task)).awake
    omega
  returned v hv := by
    -- whoever has returned found the queue empty
    have := (h.returned v (set_workers_eq (by simp) hv)).2
    rw [htasks] at this
    cases this
  notified hd v hv := h.notified hd v (set_workers_eq (by simp) hv)
  joined hd v := by
    have := h.joined hd w
    rw [hw] at this
    cases this

/-- A worker that was ready finds nothing. -/
theorem Inv.idle (h : p.Inv) (hw : p.workers w = .ready) (htasks : p.tasks = []) {x : Worker τ}
    (hx : x = if p.stop then .returned else .waiting) : (p.set w x).Inv where
  fifo := h.fifo
  current := by
    have hset : (p.set w x).current = p.current := by
      -- it takes no task, and it had none
      have htask : x.task = 0 := by
        rw [hx]
        split_ifs <;> rfl
      have hset := current_set hw x
      rwa [htask, add_zero, show (Worker.ready : Worker τ).task = 0 from rfl, add_zero] at hset
    exact hset ▸ h.current
  awake v _ := by
    show p.tasks.length ≤ p.toNotify + (p.set w x).awake
    rw [htasks]
    exact Nat.zero_le _
  returned v hv := by
    -- it returns only from a stopped pool
    by_cases hstop : p.stop
    · exact ⟨hstop, htasks⟩
    · rw [if_neg hstop] at hx
      exact h.returned v (set_workers_eq (by simp [hx]) hv)
  notified hd v hv := by
    -- after `notify_all` the pool is stopped, so it does not go to sleep
    have hstop : p.stop := by
      rintro hnot
      rcases hd with hd | hd <;> cases hnot.symm.trans hd
    rw [if_pos hstop] at hx
    exact h.notified hd v (set_workers_eq (by simp [hx]) hv)
  joined hd v := by
    have := h.joined hd w
    rw [hw] at this
    cases this

theorem Inv.work (h : p.Inv) (hw : p.workers w = .ready) : (p.work w).Inv := by
  cases htasks : p.tasks with
  | nil =>
      have hwork : p.work w = p.set w (if p.stop then .returned else .waiting) := by
        rw [Pool.work, htasks]
      exact hwork ▸ h.idle hw htasks rfl
  | cons task tasks =>
      have hwork : p.work w =
          { p.set w (.running task) with tasks, started := p.started ++ [task] } := by
        rw [Pool.work, htasks]
      exact hwork ▸ h.take hw htasks

/-- A task ends, and its worker goes back to the queue. -/
theorem Inv.finish (h : p.Inv) {task : τ} (hw : p.workers w = .running task) :
    Inv { p.set w .ready with finished := p.finished ++ [task] } where
  fifo := h.fifo
  current := by
    have hset : (p.set w .ready).current + {task} = p.current := by
      simpa [Worker.task] using current_set hw .ready
    show (p.started : Multiset τ) =
      ((p.finished ++ [task] : List τ) : Multiset τ) + (p.set w .ready).current
    -- the task moves from the worker to the finished ones
    rw [h.current, ← hset, ← Multiset.coe_add, Multiset.coe_singleton, add_assoc]
    exact congrArg _ (add_comm _ _)
  awake v hv := by
    have hle := h.awake v (set_workers_eq (by simp) hv)
    have hset : (p.set w .ready).awake + 0 = p.awake + 1 := awake_set hw .ready
    show p.tasks.length ≤ p.toNotify + (p.set w .ready).awake
    omega
  returned v hv := h.returned v (set_workers_eq (by simp) hv)
  notified hd v hv := h.notified hd v (set_workers_eq (by simp) hv)
  joined hd v := by
    have := h.joined hd w
    rw [hw] at this
    cases this

omit [DecidableEq ω] in
/-- A notification where nobody waits. -/
theorem Inv.notifyNobody (h : p.Inv) (hwaiting : ∀ w, p.workers w ≠ .waiting) (n : ℕ) :
    Inv { p with toNotify := n } where
  fifo := h.fifo
  current := h.current
  awake v hv := absurd hv (hwaiting v)
  returned := h.returned
  notified := h.notified
  joined := h.joined

omit [DecidableEq ω] in
theorem Inv.stopped (h : p.Inv) (hstop : ¬ p.stop) : Inv { p with destructor := .stopped } where
  fifo := h.fifo
  current := h.current
  awake := h.awake
  returned v hv := absurd (h.returned v hv).1 hstop
  notified hd := by rcases hd with hd | hd <;> cases hd
  joined hd := by cases hd

omit [DecidableEq ω] in
theorem Inv.notifyAll (h : p.Inv) :
    Inv { p with workers := fun w => (p.workers w).woken, destructor := .joining } := by
  have hwoken : ∀ w, (p.workers w).woken ≠ .waiting := fun w hw => by
    cases hx : p.workers w <;> rw [hx] at hw <;> cases hw
  -- nobody sleeps any more, so the rest is about tasks and ends
  refine ⟨h.fifo, ?_, fun v hv => absurd hv (hwoken v), fun v hv => ?_, fun _ => hwoken, ?_⟩
  · refine h.current.trans (congrArg _ (Finset.sum_congr rfl fun v _ => ?_))
    cases hx : p.workers v <;> simp [Worker.woken, Worker.task, hx]
  · have hv' : p.workers v = .returned := by
      cases hx : p.workers v <;> simp [Worker.woken, hx] at hv ⊢
    exact ⟨by simp [stop], (h.returned v hv').2⟩
  · intro hd'
    cases hd'

omit [DecidableEq ω] in
theorem Inv.join (h : p.Inv) (hd : p.destructor = .joining)
    (hreturned : ∀ w, p.workers w = .returned) : Inv { p with destructor := .joined } where
  fifo := h.fifo
  current := h.current
  awake := h.awake
  returned v hv := ⟨by simp [stop], (h.returned v hv).2⟩
  notified _ := h.notified (.inl hd)
  joined _ := hreturned

end Steps

/-- What a step is, with its guard. -/
inductive Cases (p : Pool ω τ) : Event ω τ → Pool ω τ → Prop
  /-- `enqueue` on a stopped pool. -/
  | throws (task : τ) : p.stop → Cases p (.enqueue task) p
  | enqueue (task : τ) : ¬ p.stop → Cases p (.enqueue task) (p.accept task)
  | notify (w : ω) : 0 < p.toNotify → p.workers w = .waiting →
      Cases p (.notifyOne (some w)) { p.set w .ready with toNotify := p.toNotify - 1 }
  | notifyNobody : 0 < p.toNotify → (∀ w, p.workers w ≠ .waiting) →
      Cases p (.notifyOne none) { p with toNotify := p.toNotify - 1 }
  | wake (w : ω) : p.workers w = .waiting → Cases p (.wake w) (p.set w .ready)
  | work (w : ω) : p.workers w = .ready → Cases p (.work w) (p.work w)
  | finish (w : ω) (task : τ) : p.workers w = .running task →
      Cases p (.finish w) { p.set w .ready with finished := p.finished ++ [task] }
  | stop : ¬ p.stop → Cases p .stop { p with destructor := .stopped }
  | notifyAll : p.destructor = .stopped →
      Cases p .notifyAll { p with workers := fun w => (p.workers w).woken, destructor := .joining }
  | join : p.destructor = .joining → (∀ w, p.workers w = .returned) →
      Cases p .join { p with destructor := .joined }

variable {p p' : Pool ω τ} {e : Event ω τ}

theorem Cases.of_step (h : Step p e p') : Cases p e p' := by
  cases e with
  | enqueue task =>
      simp only [Step, step] at h
      split_ifs at h with hstop <;> obtain rfl := Option.some.inj h
      · exact .throws task hstop
      · exact .enqueue task hstop
  | notifyOne woken =>
      cases woken with
      | none =>
          simp only [Step, step, Worker.isWaiting_iff, Option.ite_none_right_eq_some,
            Option.some.injEq] at h
          obtain ⟨⟨hn, hwaiting⟩, rfl⟩ := h
          exact .notifyNobody hn hwaiting
      | some w =>
          simp only [Step, step, Worker.isWaiting_iff, Option.ite_none_right_eq_some,
            Option.some.injEq] at h
          obtain ⟨⟨hn, hw⟩, rfl⟩ := h
          exact .notify w hn hw
  | wake w =>
      simp only [Step, step, Worker.isWaiting_iff, Option.ite_none_right_eq_some,
        Option.some.injEq] at h
      obtain ⟨hw, rfl⟩ := h
      exact .wake w hw
  | work w =>
      simp only [Step, step] at h
      cases hw : p.workers w <;> rw [hw] at h <;> try cases h
      exact .work w hw
  | finish w =>
      simp only [Step, step] at h
      cases hw : p.workers w <;> rw [hw] at h <;> try cases h
      exact .finish w _ hw
  | stop =>
      simp only [Step, step, Option.ite_none_left_eq_some, Option.some.injEq] at h
      obtain ⟨hstop, rfl⟩ := h
      exact .stop hstop
  | notifyAll =>
      simp only [Step, step, Option.ite_none_right_eq_some, Option.some.injEq] at h
      obtain ⟨hd, rfl⟩ := h
      exact .notifyAll hd
  | join =>
      simp only [Step, step, Worker.isReturned_iff, Option.ite_none_right_eq_some,
        Option.some.injEq] at h
      obtain ⟨⟨hd, hreturned⟩, rfl⟩ := h
      exact .join hd hreturned

/-- A call of `enqueue` ends at once, with a task in the queue or by throwing. -/
theorem exists_enqueue (p : Pool ω τ) (task : τ) : ∃ p', Step p (.enqueue task) p' := by
  by_cases hstop : p.stop
  · exact ⟨p, if_pos hstop⟩
  · exact ⟨p.accept task, if_neg hstop⟩

theorem Inv.step (h : p.Inv) (hstep : Step p e p') : p'.Inv := by
  cases Cases.of_step hstep with
  | throws => exact h
  | enqueue task hstop => exact h.accept task hstop
  | notify w hn hw => exact h.wake hw _ (by omega)
  | notifyNobody _ hwaiting => exact h.notifyNobody hwaiting _
  | wake w hw => exact h.wake hw _ (Nat.le_succ _)
  | work w hw => exact h.work hw
  | finish w task hw => exact h.finish hw
  | stop hstop => exact h.stopped hstop
  | notifyAll => exact h.notifyAll
  | join hd hreturned => exact h.join hd hreturned

theorem inv_of_run {es : List (Event ω τ)} (h : Run Step (init ω τ) es p) : p.Inv :=
  h.state_invariant inv_init fun _ _ _ => Inv.step

/-! ## Every task is done, once -/

omit [DecidableEq ω] [Fintype ω] in
theorem acceptedIn_concat (es : List (Event ω τ)) (e : Event ω τ) :
    acceptedIn (es ++ [e]) =
      if es.any Event.isStop then acceptedIn es else acceptedIn es ++ e.task?.toList := by
  induction es with
  | nil => cases e <;> rfl
  | cons e' es ih =>
      rw [acceptedIn, acceptedIn, List.cons_append, List.any_cons]
      -- behind the destructor nothing counts
      cases hstop : e'.isStop with
      | true => simp [hstop]
      | false =>
          rw [List.takeWhile_cons_of_pos (by simp [hstop]), Bool.false_or,
            List.takeWhile_cons_of_pos (by simp [hstop]), List.filterMap_cons, List.filterMap_cons]
          cases e'.task? with
          | none => exact ih
          | some task =>
              show task :: acceptedIn (es ++ [e]) = _
              rw [ih]
              split_ifs <;> rfl

omit [Fintype ω] in
theorem work_frame (p : Pool ω τ) (w : ω) : (p.work w).accepted = p.accepted ∧
    (p.work w).destructor = p.destructor ∧ (p.work w).toNotify = p.toNotify := by
  rw [work]
  split <;> exact ⟨rfl, rfl, rfl⟩

omit [Fintype ω] in
/-- What a worker does under the mutex, for the queue. -/
theorem tasks_work (p : Pool ω τ) (w : ω) :
    ((p.work w).tasks : Multiset τ) + ((p.work w).workers w).task = p.tasks := by
  cases htasks : p.tasks with
  | nil =>
      rw [work, htasks]
      show ((p.tasks : List τ) : Multiset τ) + (update p.workers w _ w).task = _
      rw [htasks, Function.update_self]
      split_ifs <;> rfl
  | cons task tasks =>
      rw [work, htasks]
      show ((tasks : List τ) : Multiset τ) + (update p.workers w (.running task) w).task = _
      rw [Function.update_self, ← Multiset.cons_coe, ← Multiset.singleton_add, add_comm]
      rfl

omit [Fintype ω] in
theorem work_off {v w : ω} (hne : v ≠ w) : (p.work w).workers v = p.workers v := by
  rw [work]
  split <;> exact Function.update_of_ne hne ..

theorem quiet_step (h : Step p e p') (he : e.isQuiet) :
    p'.tasks = p.tasks ∧ ∀ w, (p'.workers w).task = (p.workers w).task := by
  -- whoever waits has no task, before it is woken up and after
  have hset : ∀ {w : ω}, p.workers w = .waiting → ∀ v,
      (update p.workers w .ready v).task = (p.workers v).task := by
    intro w hw v
    by_cases hv : v = w
    · rw [hv, Function.update_self, hw]
      rfl
    · rw [Function.update_of_ne hv]
  cases Cases.of_step h with
  | notify w _ hw => exact ⟨rfl, hset hw⟩
  | notifyNobody => exact ⟨rfl, fun _ => rfl⟩
  | wake w hw => exact ⟨rfl, hset hw⟩
  | stop => exact ⟨rfl, fun _ => rfl⟩
  | notifyAll =>
      refine ⟨rfl, fun w => ?_⟩
      show (p.workers w).woken.task = (p.workers w).task
      cases p.workers w <;> rfl
  | join => exact ⟨rfl, fun _ => rfl⟩
  | _ => cases he

theorem stop_step (h : Step p e p') : p'.stop ↔ p.stop ∨ e.isStop := by
  cases Cases.of_step h with
  | work w => simp [Pool.stop, (work_frame p w).2.1, Event.isStop]
  | notifyAll hd => simp [Pool.stop, hd]
  | join hd => simp [Pool.stop, hd]
  | _ => simp [Pool.stop, Event.isStop, set, Pool.accept]

theorem accepted_step (h : Step p e p') :
    p'.accepted = if p.stop then p.accepted else p.accepted ++ e.task?.toList := by
  cases Cases.of_step h with
  | throws task hstop => rw [if_pos hstop]
  | enqueue task hstop =>
      rw [if_neg hstop]
      rfl
  | work w => simp [(work_frame p w).1, Event.task?]
  | _ => simp [Event.task?, set]

/-- The tasks that `enqueue` has taken are those of its calls before the destructor. -/
theorem accepted_of_run {es : List (Event ω τ)} (h : Run Step (init ω τ) es p) :
    p.accepted = acceptedIn es ∧ (p.stop ↔ es.any Event.isStop) := by
  have hinit : (init ω τ).accepted = acceptedIn ([] : List (Event ω τ)) ∧
      ((init ω τ).stop ↔ ([] : List (Event ω τ)).any Event.isStop) :=
    ⟨rfl, by simp [init, Pool.stop]⟩
  refine @Run.invariant _ _ _ _ (fun es p => p.accepted = acceptedIn es ∧
    (p.stop ↔ es.any Event.isStop)) hinit ?_ _ _ h
  -- the invariant is about the events so far
  rintro es p e p' ⟨hacc, hstop⟩ hstep
  rw [accepted_step hstep, stop_step hstep, acceptedIn_concat, hacc, List.any_append]
  refine ⟨if_congr hstop rfl rfl, ?_⟩
  rw [hstop]
  simp

/-! ## The pool comes to an end -/

/-- The steps that the workers can take without the queue. -/
def steps (p : Pool ω τ) : ℕ := ∑ w, (p.workers w).steps

/-- The steps that the pool can do by itself. -/
def budget (p : Pool ω τ) : ℕ :=
  2 * p.toNotify + p.steps + 2 * p.tasks.length + p.destructor.steps (Fintype.card ω)

theorem steps_set {w : ω} {x : Worker τ} (hx : p.workers w = x) (y : Worker τ) :
    (p.set w y).steps + x.steps = p.steps + y.steps :=
  hx ▸ sum_update_add Worker.steps p.workers w y

theorem steps_work {w : ω} (hw : p.workers w = .ready) :
    (p.work w).steps + 2 * (p.work w).tasks.length + 1 = p.steps + 2 * p.tasks.length := by
  have hset : ∀ y, (p.set w y).steps + 1 = p.steps + y.steps := steps_set hw
  cases htasks : p.tasks with
  | nil =>
      have hwork : p.work w = p.set w (if p.stop then .returned else .waiting) := by
        rw [Pool.work, htasks]
      -- it sleeps or ends: its one step is gone
      have hzero : (if p.stop then Worker.returned else Worker.waiting : Worker τ).steps = 0 := by
        split_ifs <;> rfl
      have := hset (if p.stop then .returned else .waiting)
      rw [hwork, show (p.set w _).tasks = p.tasks from rfl, htasks]
      omega
  | cons task tasks =>
      have hwork : p.work w =
          { p.set w (.running task) with tasks, started := p.started ++ [task] } := by
        rw [Pool.work, htasks]
      -- a task in the queue was worth two steps, and the worker now has two
      have : (p.set w (.running task)).steps + 1 = p.steps + 2 := hset (.running task)
      rw [hwork, List.length_cons]
      show (p.set w (.running task)).steps + 2 * tasks.length + 1 = _
      omega

omit [DecidableEq ω] in
theorem steps_woken (p : Pool ω τ) :
    ∑ w, (p.workers w).woken.steps ≤ p.steps + Fintype.card ω := by
  have hone : ∀ w, (p.workers w).woken.steps ≤ (p.workers w).steps + 1 := fun w => by
    cases p.workers w <;> simp [Worker.woken, Worker.steps]
  refine (Finset.sum_le_sum fun w _ => hone w).trans ?_
  simp [Finset.sum_add_distrib, steps]

/-- **A step that the pool takes by itself is one less to do.** -/
theorem budget_step (h : Step p e p') :
    p'.budget + (if e.isProgress then 1 else 0) ≤ p.budget + e.cost (Fintype.card ω) := by
  cases Cases.of_step h with
  | throws => simp [Event.isProgress]
  | enqueue task hstop =>
      show 2 * (p.toNotify + 1) + p.steps + 2 * (p.tasks ++ [task]).length +
          p.destructor.steps (Fintype.card ω) + 0 ≤
        2 * p.toNotify + p.steps + 2 * p.tasks.length +
          p.destructor.steps (Fintype.card ω) + 4
      rw [List.length_append, List.length_singleton]
      omega
  | notify w hn hw =>
      -- the notification was worth two steps, and the worker has one more
      have hset : (p.set w .ready).steps + 0 = p.steps + 1 := steps_set hw .ready
      show 2 * (p.toNotify - 1) + (p.set w .ready).steps + 2 * p.tasks.length +
          p.destructor.steps (Fintype.card ω) + 1 ≤
        2 * p.toNotify + p.steps + 2 * p.tasks.length +
          p.destructor.steps (Fintype.card ω) + 0
      omega
  | notifyNobody hn =>
      show 2 * (p.toNotify - 1) + p.steps + 2 * p.tasks.length +
          p.destructor.steps (Fintype.card ω) + 1 ≤
        2 * p.toNotify + p.steps + 2 * p.tasks.length +
          p.destructor.steps (Fintype.card ω) + 0
      omega
  | wake w hw =>
      have hset : (p.set w .ready).steps + 0 = p.steps + 1 := steps_set hw .ready
      show 2 * p.toNotify + (p.set w .ready).steps + 2 * p.tasks.length +
          p.destructor.steps (Fintype.card ω) + 0 ≤
        2 * p.toNotify + p.steps + 2 * p.tasks.length +
          p.destructor.steps (Fintype.card ω) + 1
      omega
  | work w hw =>
      have hwork := steps_work hw
      obtain ⟨-, hd, hn⟩ := work_frame p w
      rw [budget, budget, hd, hn]
      simp only [Event.isProgress, Event.cost, if_true]
      omega
  | finish w task hw =>
      -- back to the queue, and no longer at a task
      have hset : (p.set w .ready).steps + 2 = p.steps + 1 := steps_set hw .ready
      show 2 * p.toNotify + (p.set w .ready).steps + 2 * p.tasks.length +
          p.destructor.steps (Fintype.card ω) + 1 ≤
        2 * p.toNotify + p.steps + 2 * p.tasks.length +
          p.destructor.steps (Fintype.card ω) + 0
      omega
  | stop hstop =>
      -- what the destructor is to do is what its call costs
      have hd : p.destructor = .notCalled := not_not.mp hstop
      rw [budget, budget, hd]
      show 2 * p.toNotify + p.steps + 2 * p.tasks.length + (Fintype.card ω + 2) + 0 ≤
        2 * p.toNotify + p.steps + 2 * p.tasks.length + 0 + (Fintype.card ω + 2)
      omega
  | notifyAll hd =>
      -- every worker may have one step more
      have hwoken := steps_woken p
      rw [budget, budget, hd]
      show 2 * p.toNotify + ∑ w, (p.workers w).woken.steps + 2 * p.tasks.length + 1 + 1 ≤
        2 * p.toNotify + p.steps + 2 * p.tasks.length + (Fintype.card ω + 2) + 0
      omega
  | join hd =>
      rw [budget, budget, hd]
      show 2 * p.toNotify + p.steps + 2 * p.tasks.length + 0 + 1 ≤
        2 * p.toNotify + p.steps + 2 * p.tasks.length + 1 + 0
      omega

/-- The steps that the pool takes by itself in a run. -/
theorem budget_run {es : List (Event ω τ)} (h : Run Step p es p') :
    p'.budget + es.countP Event.isProgress ≤
      p.budget + (es.map (Event.cost (Fintype.card ω))).sum := by
  induction h with
  | nil => simp
  | @snoc es _ _ e _ hlast ih =>
      have hstep := budget_step hlast
      rw [List.countP_append, List.countP_singleton, List.map_append, List.sum_append,
        List.map_singleton, List.sum_singleton]
      omega

/-! ## Nothing is left where the pool rests -/

/-- The pool can do nothing by itself. -/
def Rests (p : Pool ω τ) : Prop := ∀ e p', e.isProgress → ¬ Step p e p'

section Rests

variable (h : p.Rests)

include h

theorem Rests.not_ready (w : ω) : p.workers w ≠ .ready := fun hw =>
  h (.work w) (p.work w) rfl (by rw [Step, step, hw])

theorem Rests.not_running (w : ω) (task : τ) : p.workers w ≠ .running task := fun hw =>
  h (.finish w) _ rfl (by rw [Step, step, hw])

theorem Rests.toNotify : p.toNotify = 0 := by
  by_contra hn
  -- a notification can be sent whether somebody waits or not
  by_cases hwaiting : ∃ w, p.workers w = .waiting
  · obtain ⟨w, hw⟩ := hwaiting
    refine h (.notifyOne (some w)) { p.set w .ready with toNotify := p.toNotify - 1 } rfl ?_
    rw [Step, step, if_pos ⟨Nat.pos_of_ne_zero hn, Worker.isWaiting_iff.mpr hw⟩]
  · refine h (.notifyOne none) { p with toNotify := p.toNotify - 1 } rfl ?_
    rw [Step, step, if_pos ⟨Nat.pos_of_ne_zero hn, fun w hw => hwaiting ⟨w, by simpa using hw⟩⟩]

theorem Rests.waiting_or_returned (w : ω) :
    p.workers w = .waiting ∨ p.workers w = .returned := by
  cases hw : p.workers w with
  | ready => exact absurd hw (h.not_ready w)
  | waiting => exact .inl rfl
  | running task => exact absurd hw (h.not_running w task)
  | returned => exact .inr rfl

theorem Rests.awake : p.awake = 0 :=
  Finset.sum_eq_zero fun w _ => by
    rcases h.waiting_or_returned w with hw | hw <;> rw [hw] <;> rfl

theorem Rests.current : p.current = 0 :=
  Finset.sum_eq_zero fun w _ => by
    rcases h.waiting_or_returned w with hw | hw <;> rw [hw] <;> rfl

/-- No wake-up was lost. -/
theorem Rests.tasks [Nonempty ω] (hinv : p.Inv) : p.tasks = [] := by
  obtain ⟨w⟩ := ‹Nonempty ω›
  rcases h.waiting_or_returned w with hw | hw
  · -- nobody is on the way to the queue, so there is nothing in it
    have hle := hinv.awake w hw
    rw [h.toNotify, h.awake] at hle
    exact List.eq_nil_of_length_eq_zero (Nat.le_zero.mp hle)
  · exact (hinv.returned w hw).2

theorem Rests.joined (hinv : p.Inv) (hstop : p.stop) : p.destructor = .joined := by
  cases hd : p.destructor with
  | notCalled => exact absurd hd hstop
  | stopped =>
      refine absurd ?_
        (h .notifyAll
          { p with workers := fun w => (p.workers w).woken, destructor := .joining } rfl)
      rw [Step, step, if_pos hd]
  | joining =>
      -- nobody waits after `notify_all`, so everybody has returned
      have hreturned : ∀ w, (p.workers w).isReturned := fun w => by
        rcases h.waiting_or_returned w with hw | hw
        · exact absurd hw (hinv.notified (.inl hd) w)
        · exact Worker.isReturned_iff.mpr hw
      refine absurd ?_ (h .join { p with destructor := .joined } rfl)
      rw [Step, step, if_pos ⟨hd, hreturned⟩]
  | joined => rfl

end Rests

/-! ## All interleavings -/

/-- **Tasks are taken in the order of the calls of `enqueue`, each one once**, and a task that
was taken is done or some worker is at it. -/
theorem taken_once {es : List (Event ω τ)} (h : Run Step (init ω τ) es p) :
    p.started ++ p.tasks = acceptedIn es ∧
      (p.started : Multiset τ) = p.finished + ∑ w, (p.workers w).task :=
  ⟨(inv_of_run h).fifo.trans (accepted_of_run h).1, (inv_of_run h).current⟩

/-- Two workers and a task that one of them has taken. -/
theorem taken_once_sample : ∃ p : Pool (Fin 2) ℕ,
    Run Step (init (Fin 2) ℕ) [.work 1, .enqueue 7, .enqueue 8, .work 0] p ∧
    p.started ++ p.tasks = acceptedIn [.work (1 : Fin 2), .enqueue 7, .enqueue 8, .work 0] ∧
      (p.started : Multiset ℕ) = p.finished + ∑ w, (p.workers w).task :=
  ⟨_, Run.of_foldlM rfl, taken_once (Run.of_foldlM rfl)⟩

end Pool

end OsIrose.ThreadPool

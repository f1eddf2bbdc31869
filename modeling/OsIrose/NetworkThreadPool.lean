/-
The threads of the network: `core/include/network_thread_pool.h` over the pool of
`core/include/threadpool.h`.

The constructor queues a job for each core. A job runs one handler of the `io_service_` and
queues itself again, as long as its bit is set. What a handler throws ends up in a future that
nobody looks at, and the job does not queue itself again. So up to `Shutdown`, every job is in
the queue, or at one worker, or lost to an exception (`Network.Inv.jobs`), and somebody serves
the `io_service_` unless all jobs were lost (`served`).

Each read and write of the bits is one step.
-/
import Mathlib.Tactic.Abel
import OsIrose.ThreadPool

set_option autoImplicit false

namespace OsIrose.ThreadPool

open Function (update)
open Runs (Run)

/-- Where a job is while a worker is at it. -/
inductive Phase
  /-- In `run_one`. -/
  | polling
  /-- The bit was set: the job is to be queued again. -/
  | tested
  | ended
  deriving DecidableEq

structure Network (ω : Type*) where
  pool : Pool ω ℕ
  /-- The phase of the job that the worker is at. -/
  phase : ω → Phase
  /-- `threads_active_` -/
  active : ℕ → Bool
  /-- The jobs that the constructor has queued. -/
  launched : ℕ
  /-- `Shutdown` was called. -/
  shutdown : Bool
  /-- The jobs whose handler threw. -/
  lost : List ℕ

/-- `core_count`, a `uint16_t` -/
def coreCount (hardware_concurrency maxthreads : ℕ) : ℕ :=
  let core_count := (if hardware_concurrency ≠ 0 then hardware_concurrency else 1) % 65536
  let core_count :=
    if maxthreads ≠ 0 ∧ maxthreads < core_count then maxthreads else core_count
  if 512 < core_count then 512 else if core_count ≤ 0 then 1 else core_count

namespace Network

inductive Event (ω : Type*)
  /-- The next round of the loop in the constructor. -/
  | launch
  /-- A step of the pool that no job takes. -/
  | pool (e : ThreadPool.Event ω ℕ)
  /-- `run_one` has returned, and the bit is tested. -/
  | test (w : ω)
  /-- `run_one` has thrown. -/
  | throw (w : ω)
  /-- The job queues itself. -/
  | requeue (w : ω)
  | finish (w : ω)
  | shutdown

variable {ω : Type*} [DecidableEq ω]

def init (ω : Type*) : Network ω where
  pool := Pool.init ω ℕ
  phase _ := .ended
  active _ := false
  launched := 0
  shutdown := false
  lost := []

/-- The job a worker is at, in a phase. -/
def job (s : Network ω) (w : ω) (phase : Phase) : Option ℕ :=
  match s.pool.workers w with
  | .running id => if s.phase w = phase then some id else none
  | _ => none

variable [Fintype ω]

def step (core_count : ℕ) (s : Network ω) : Event ω → Option (Network ω)
  | .launch =>
      if s.launched < core_count ∧ s.shutdown = false then
        (s.pool.step (.enqueue s.launched)).map fun pool =>
          { s with pool, active := update s.active s.launched true, launched := s.launched + 1 }
      else none
  -- only jobs queue tasks, and a task ends when its job does
  | .pool (.enqueue _) => none
  | .pool (.finish _) => none
  | .pool .stop =>
      -- the members are destroyed after the body of the destructor
      if s.shutdown then (s.pool.step .stop).map fun pool => { s with pool } else none
  | .pool (.work w) =>
      (s.pool.step (.work w)).map fun pool => { s with pool, phase := update s.phase w .polling }
  | .pool e => (s.pool.step e).map fun pool => { s with pool }
  | .test w => (s.job w .polling).map fun id =>
      { s with phase := update s.phase w (if s.active id then .tested else .ended) }
  | .throw w => (s.job w .polling).map fun id =>
      { s with phase := update s.phase w .ended, lost := s.lost ++ [id] }
  | .requeue w => (s.job w .tested).bind fun id =>
      (s.pool.step (.enqueue id)).map fun pool =>
        { s with pool, phase := update s.phase w .ended }
  | .finish w => (s.job w .ended).bind fun _ =>
      (s.pool.step (.finish w)).map fun pool => { s with pool }
  | .shutdown =>
      if s.launched = core_count ∧ s.shutdown = false then
        some { s with active := fun _ => false, shutdown := true }
      else none

def Step (core_count : ℕ) (s : Network ω) (e : Event ω) (s' : Network ω) : Prop :=
  s.step core_count e = some s'

/-! ## Where the jobs are -/

/-- The job that a worker is at and that is not in the queue yet. -/
def liveAt (s : Network ω) (w : ω) : Multiset ℕ :=
  if s.phase w = .ended then 0 else (s.pool.workers w).task

def live (s : Network ω) : Multiset ℕ := ∑ w, s.liveAt w

structure Inv (core_count : ℕ) (s : Network ω) : Prop where
  /-- Every job is in the queue, at one worker or lost. -/
  jobs : s.shutdown = false →
    (s.pool.tasks : Multiset ℕ) + s.live + s.lost = Multiset.range s.launched
  active : s.shutdown = false → ∀ id, id < s.launched → s.active id = true
  launched : s.launched ≤ core_count
  stop : s.pool.stop → s.shutdown = true
  pool : s.pool.Inv

variable {core_count : ℕ} {s s' : Network ω} {w : ω} {e : Event ω}

omit [DecidableEq ω] in
theorem inv_init : (init ω).Inv core_count where
  jobs _ := by simp [init, live, liveAt, Pool.init]
  active _ id hid := absurd hid (Nat.not_lt_zero id)
  launched := Nat.zero_le _
  stop h := absurd rfl h
  pool := Pool.inv_init

omit [DecidableEq ω] [Fintype ω] in
theorem job_eq_some_iff {phase : Phase} {id : ℕ} :
    s.job w phase = some id ↔ s.pool.workers w = .running id ∧ s.phase w = phase := by
  rw [job]
  cases s.pool.workers w <;> simp [and_comm]

omit [DecidableEq ω] [Fintype ω] in
theorem liveAt_of_job {phase : Phase} {id : ℕ} (hjob : s.job w phase = some id)
    (hphase : phase ≠ .ended) : s.liveAt w = {id} := by
  obtain ⟨hw, hp⟩ := job_eq_some_iff.mp hjob
  rw [liveAt, hp, if_neg hphase, hw]
  rfl

omit [DecidableEq ω] [Fintype ω] in
theorem liveAt_of_task (h : (s.pool.workers w).task = 0) : s.liveAt w = 0 := by
  rw [liveAt, h, ite_self]

/-- What changes at one worker only, in the balance of all. -/
theorem jobs_of_off (s s' : Network ω) (w : ω) (hoff : ∀ v, v ≠ w → s'.liveAt v = s.liveAt v)
    (hbalance : (s'.pool.tasks : Multiset ℕ) + s'.liveAt w + s'.lost =
      s.pool.tasks + s.liveAt w + s.lost) :
    (s'.pool.tasks : Multiset ℕ) + s'.live + s'.lost = s.pool.tasks + s.live + s.lost := by
  have hsum : s'.live + s.liveAt w = s.live + s'.liveAt w := sum_add_of_eq_off w hoff
  have hshift : (s'.pool.tasks : Multiset ℕ) + s'.live + s'.lost + s.liveAt w =
      s.pool.tasks + s.live + s.lost + s.liveAt w := by
    -- the worker's share is moved to the end, exchanged and moved back
    calc (s'.pool.tasks : Multiset ℕ) + s'.live + s'.lost + s.liveAt w
        = s'.pool.tasks + s'.lost + (s'.live + s.liveAt w) := by abel
      _ = s'.pool.tasks + s'.liveAt w + s'.lost + s.live := by rw [hsum]; abel
      _ = s.pool.tasks + s.live + s.lost + s.liveAt w := by rw [hbalance]; abel
  exact add_right_cancel hshift

omit [DecidableEq ω] in
/-- A job that a worker is at was queued by the constructor. -/
theorem Inv.lt_of_job (h : s.Inv core_count) (hopen : s.shutdown = false) {phase : Phase} {id : ℕ}
    (hjob : s.job w phase = some id) (hphase : phase ≠ .ended) : id < s.launched := by
  have hmem : id ∈ s.live :=
    Multiset.mem_of_le (Finset.single_le_sum (fun v _ => Multiset.zero_le (s.liveAt v))
      (Finset.mem_univ w)) (liveAt_of_job hjob hphase ▸ Multiset.mem_singleton_self id)
  refine Multiset.mem_range.mp ?_
  rw [← h.jobs hopen]
  simp [hmem]

section Steps

variable {pool : Pool ω ℕ} (h : s.Inv core_count)

include h

/-- The next job of the constructor. -/
theorem Inv.launch (hlt : s.launched < core_count) (hopen : s.shutdown = false)
    (hpool : s.pool.Step (.enqueue s.launched) pool) :
    Inv core_count { s with pool, active := update s.active s.launched true,
                            launched := s.launched + 1 } := by
  cases Pool.Cases.of_step hpool with
  | throws _ hstop => exact absurd (h.stop hstop) (by simp [hopen])
  | enqueue _ hstop =>
      refine ⟨fun _ => ?_, fun _ id hid => ?_, hlt, fun hs => absurd hs hstop, h.pool.step hpool⟩
      · -- the job is the next number, and it is in the queue
        show ((s.pool.tasks ++ [s.launched] : List ℕ) : Multiset ℕ) + s.live + s.lost = _
        rw [Multiset.range_succ, ← h.jobs hopen, ← Multiset.coe_add, Multiset.coe_singleton,
          ← Multiset.singleton_add]
        abel
      · show update s.active s.launched true id = true
        have hid' : id < s.launched + 1 := hid
        by_cases heq : id = s.launched
        · rw [heq, Function.update_self]
        · rw [Function.update_of_ne heq]
          exact h.active hopen id (by omega)

/-- A step of the pool that neither queues nor takes a job. -/
theorem Inv.quiet {e : ThreadPool.Event ω ℕ} (hpool : s.pool.Step e pool) (he : e.isQuiet)
    (hstop : pool.stop → s.shutdown = true) : Inv core_count { s with pool } := by
  obtain ⟨htasks, htask⟩ := Pool.quiet_step hpool he
  refine ⟨fun hopen => ?_, h.active, h.launched, hstop, h.pool.step hpool⟩
  have hlive : live { s with pool } = s.live :=
    Finset.sum_congr rfl fun w _ => by rw [liveAt, liveAt, htask w]
  show ((pool.tasks : List ℕ) : Multiset ℕ) + live { s with pool } + s.lost = _
  rw [hlive, htasks, h.jobs hopen]

/-- A worker looks into the queue. -/
theorem Inv.work (hw : s.pool.workers w = .ready) :
    Inv core_count { s with pool := s.pool.work w, phase := update s.phase w .polling } := by
  have hstep : s.pool.Step (.work w) (s.pool.work w) := by rw [Pool.Step, Pool.step, hw]
  refine ⟨fun hopen => ?_, h.active, h.launched, fun hs => h.stop ?_, h.pool.step hstep⟩
  · rw [← h.jobs hopen]
    refine jobs_of_off s _ w (fun v hv => ?_) ?_
    · simp only [liveAt, Pool.work_off hv, Function.update_of_ne hv]
    · -- what the queue loses is what the worker is at
      have hbefore : s.liveAt w = 0 := liveAt_of_task (by rw [hw]; rfl)
      simp only [liveAt, Function.update_self, Pool.tasks_work, reduceCtorEq, if_false]
      rw [← liveAt, hbefore, add_zero]
  · simpa [Pool.stop_step hstep, ThreadPool.Event.isStop] using hs

/-- The bit of a job is set, up to `Shutdown`. -/
theorem Inv.test {id : ℕ} (hjob : s.job w .polling = some id) :
    Inv core_count
      { s with phase := update s.phase w (if s.active id then .tested else .ended) } := by
  refine ⟨fun hopen => ?_, h.active, h.launched, h.stop, h.pool⟩
  -- up to `Shutdown` the bit of every job is set
  have hactive := h.active hopen id (h.lt_of_job hopen hjob (by simp))
  rw [← h.jobs hopen]
  refine jobs_of_off s _ w (fun v hv => ?_) ?_
  · simp only [liveAt, Function.update_of_ne hv]
  · obtain ⟨hw, hp⟩ := job_eq_some_iff.mp hjob
    simp [liveAt, hactive, hw, hp]

/-- A handler throws. -/
theorem Inv.throw {id : ℕ} (hjob : s.job w .polling = some id) :
    Inv core_count { s with phase := update s.phase w .ended, lost := s.lost ++ [id] } := by
  refine ⟨fun hopen => ?_, h.active, h.launched, h.stop, h.pool⟩
  rw [← h.jobs hopen]
  refine jobs_of_off s _ w (fun v hv => ?_) ?_
  · simp only [liveAt, Function.update_of_ne hv]
  · -- from the worker to the lost ones
    rw [liveAt_of_job hjob (by simp), liveAt]
    simp only [Function.update_self, if_true, ← Multiset.coe_add, Multiset.coe_singleton]
    abel

/-- A job queues itself. -/
theorem Inv.requeue {id : ℕ} (hjob : s.job w .tested = some id)
    (hpool : s.pool.Step (.enqueue id) pool) :
    Inv core_count { s with pool, phase := update s.phase w .ended } := by
  have hstop : pool.stop → s.shutdown = true := fun hs => h.stop <| by
    simpa [Pool.stop_step hpool, ThreadPool.Event.isStop] using hs
  refine ⟨fun hopen => ?_, h.active, h.launched, hstop, h.pool.step hpool⟩
  rw [← h.jobs hopen]
  cases Pool.Cases.of_step hpool with
  -- a stopped pool has been shut down
  | throws _ hs => exact absurd ((h.stop hs).symm.trans hopen) (by simp)
  | enqueue _ hs =>
      refine jobs_of_off s _ w (fun v hv => ?_) ?_
      · simp only [liveAt, Function.update_of_ne hv]
        rfl
      · -- from the worker back into the queue
        rw [liveAt_of_job hjob (by simp), liveAt]
        show ((s.pool.tasks ++ [id] : List ℕ) : Multiset ℕ) + _ + s.lost = _
        simp only [Function.update_self, if_true, ← Multiset.coe_add, Multiset.coe_singleton]
        abel

/-- The worker is done with a job. -/
theorem Inv.finish {id : ℕ} (hjob : s.job w .ended = some id)
    (hpool : s.pool.Step (.finish w) pool) : Inv core_count { s with pool } := by
  have hstop : pool.stop → s.shutdown = true := fun hs => h.stop <| by
    simpa [Pool.stop_step hpool, ThreadPool.Event.isStop] using hs
  refine ⟨fun hopen => ?_, h.active, h.launched, hstop, h.pool.step hpool⟩
  rw [← h.jobs hopen]
  obtain ⟨hw, hp⟩ := job_eq_some_iff.mp hjob
  cases Pool.Cases.of_step hpool with
  | finish _ task =>
      refine jobs_of_off s _ w (fun v hv => ?_) ?_
      · show (if s.phase v = .ended then 0 else (update s.pool.workers w .ready v).task) = _
        rw [Function.update_of_ne hv, liveAt]
      · show ((s.pool.tasks : List ℕ) : Multiset ℕ) + (if s.phase w = .ended then 0 else _) +
          s.lost = _
        -- the job was over before, so nothing moves
        rw [liveAt, if_pos hp, if_pos hp]

end Steps

theorem Inv.step (h : s.Inv core_count) (hstep : Step core_count s e s') : s'.Inv core_count := by
  cases e with
  | launch =>
      simp only [Step, Network.step, Option.ite_none_right_eq_some] at hstep
      obtain ⟨⟨hlt, hopen⟩, hmap⟩ := hstep
      obtain ⟨pool, hpool, rfl⟩ := Option.map_eq_some_iff.mp hmap
      exact h.launch hlt hopen hpool
  | pool e =>
      cases e with
      | enqueue => cases hstep
      | finish => cases hstep
      | work w =>
          obtain ⟨pool, hpool, rfl⟩ := Option.map_eq_some_iff.mp hstep
          cases Pool.Cases.of_step hpool with
          | work _ hw => exact h.work hw
      | stop =>
          simp only [Step, Network.step, Option.ite_none_right_eq_some] at hstep
          obtain ⟨hshut, hmap⟩ := hstep
          obtain ⟨pool, hpool, rfl⟩ := Option.map_eq_some_iff.mp hmap
          exact h.quiet hpool rfl fun _ => hshut
      | _ =>
          obtain ⟨pool, hpool, rfl⟩ := Option.map_eq_some_iff.mp hstep
          refine h.quiet hpool rfl fun hs => h.stop ?_
          simpa [Pool.stop_step hpool, ThreadPool.Event.isStop] using hs
  | test w =>
      obtain ⟨id, hjob, rfl⟩ := Option.map_eq_some_iff.mp hstep
      exact h.test hjob
  | throw w =>
      obtain ⟨id, hjob, rfl⟩ := Option.map_eq_some_iff.mp hstep
      exact h.throw hjob
  | requeue w =>
      obtain ⟨id, hjob, hmap⟩ := Option.bind_eq_some_iff.mp hstep
      obtain ⟨pool, hpool, rfl⟩ := Option.map_eq_some_iff.mp hmap
      exact h.requeue hjob hpool
  | finish w =>
      obtain ⟨id, hjob, hmap⟩ := Option.bind_eq_some_iff.mp hstep
      obtain ⟨pool, hpool, rfl⟩ := Option.map_eq_some_iff.mp hmap
      exact h.finish hjob hpool
  | shutdown =>
      simp only [Step, Network.step, Option.ite_none_right_eq_some, Option.some.injEq] at hstep
      obtain ⟨-, rfl⟩ := hstep
      exact ⟨fun hopen => absurd hopen (by simp), fun hopen => absurd hopen (by simp), h.launched,
        fun _ => rfl, h.pool⟩

theorem inv_of_run {es : List (Event ω)} (h : Run (Step core_count) (init ω) es s) :
    s.Inv core_count :=
  h.state_invariant inv_init fun _ _ _ => Inv.step

/-! ## Somebody serves the `io_service_` -/

/-- What the threads do by themselves, without a handler to run. -/
def Event.isInternal : Event ω → Bool
  | .launch | .requeue _ | .finish _ => true
  | .pool e => e.isProgress || e.isStop
  | _ => false

/-- Nobody is in `run_one`, and nobody will be. -/
structure Stuck (core_count : ℕ) (s : Network ω) : Prop where
  internal : ∀ e s', e.isInternal → ¬ Step core_count s e s'
  polling : ∀ w, s.job w .polling = none

section Stuck

variable (h : s.Stuck core_count)

include h

theorem Stuck.not_running (w : ω) (id : ℕ) : s.pool.workers w ≠ .running id := by
  intro hw
  have hjob : s.job w (s.phase w) = some id := job_eq_some_iff.mpr ⟨hw, rfl⟩
  cases hphase : s.phase w with
  | polling =>
      rw [hphase, h.polling w] at hjob
      cases hjob
  | tested =>
      rw [hphase] at hjob
      -- `enqueue` ends at once, so the job can queue itself
      obtain ⟨pool, hpool⟩ := s.pool.exists_enqueue id
      refine h.internal (.requeue w) { s with pool, phase := update s.phase w .ended } rfl ?_
      rw [Step, Network.step, hjob, Option.bind_some, show s.pool.step _ = _ from hpool]
      rfl
  | ended =>
      rw [hphase] at hjob
      refine h.internal (.finish w) { s with pool := { s.pool.set w .ready with
        finished := s.pool.finished ++ [id] } } rfl ?_
      rw [Step, Network.step, hjob, Option.bind_some, Pool.step, hw]
      rfl

theorem Stuck.rests : s.pool.Rests := by
  intro e pool he hpool
  cases e with
  | finish w =>
      -- a task ends when its job does
      cases Pool.Cases.of_step hpool with
      | finish _ task hw => exact h.not_running w task hw
  | work w =>
      refine h.internal (.pool (.work w)) { s with pool, phase := update s.phase w .polling } rfl ?_
      rw [Step, Network.step, show s.pool.step _ = _ from hpool]
      rfl
  | notifyOne woken =>
      refine h.internal (.pool (.notifyOne woken)) { s with pool } rfl ?_
      rw [Step, Network.step, show s.pool.step _ = _ from hpool]
      · rfl
      all_goals simp
  | notifyAll =>
      refine h.internal (.pool .notifyAll) { s with pool } rfl ?_
      rw [Step, Network.step, show s.pool.step _ = _ from hpool]
      · rfl
      all_goals simp
  | join =>
      refine h.internal (.pool .join) { s with pool } rfl ?_
      rw [Step, Network.step, show s.pool.step _ = _ from hpool]
      · rfl
      all_goals simp
  | _ => cases he

theorem Stuck.launched (hinv : s.Inv core_count) (hopen : s.shutdown = false) :
    s.launched = core_count := by
  by_contra hne
  have hlt : s.launched < core_count := lt_of_le_of_ne hinv.launched hne
  -- the constructor can go on
  obtain ⟨pool, hpool⟩ := s.pool.exists_enqueue s.launched
  refine h.internal .launch { s with pool, active := update s.active s.launched true,
                                     launched := s.launched + 1 } rfl ?_
  rw [Step, Network.step, if_pos ⟨hlt, hopen⟩, show s.pool.step _ = _ from hpool]
  rfl

theorem Stuck.live : s.live = 0 :=
  Finset.sum_eq_zero fun w _ => liveAt_of_task <| by
    cases hw : s.pool.workers w with
    | running id => exact absurd hw (h.not_running w id)
    | _ => rfl

theorem Stuck.stop (hshut : s.shutdown = true) : s.pool.stop := by
  by_contra hstop
  refine h.internal (.pool .stop) { s with pool := { s.pool with destructor := .stopped } } rfl ?_
  rw [Step, Network.step, if_pos hshut, Pool.step, if_neg hstop]
  rfl

end Stuck

/-- There are never more jobs than threads, but for a machine of unknown size: there it is one
job and no thread. -/
theorem coreCount_bounds (hardware_concurrency maxthreads : ℕ) :
    0 < coreCount hardware_concurrency maxthreads ∧
      coreCount hardware_concurrency maxthreads ≤ max hardware_concurrency 1 := by
  have hmod := Nat.mod_le (if hardware_concurrency ≠ 0 then hardware_concurrency else 1) 65536
  rw [coreCount]
  split_ifs at hmod ⊢ <;> omega

section Served

variable {hardware_concurrency maxthreads : ℕ} {s : Network (Fin hardware_concurrency)}

/-- **Up to `Shutdown` every job of the constructor is in the queue, at one worker or lost to an
exception**, and somebody is in `run_one` or will be, unless all are lost. After it the threads
end. -/
theorem served (hthreads : 0 < hardware_concurrency)
    {es : List (Event (Fin hardware_concurrency))}
    (h : Run (Step (coreCount hardware_concurrency maxthreads)) (init _) es s) :
    (s.shutdown = false →
      (s.pool.tasks : Multiset ℕ) + ∑ w, s.liveAt w + s.lost = Multiset.range s.launched ∧
      (s.Stuck (coreCount hardware_concurrency maxthreads) →
        s.lost.Perm (List.range (coreCount hardware_concurrency maxthreads)))) ∧
    (s.shutdown = true → s.Stuck (coreCount hardware_concurrency maxthreads) →
      ∀ w, s.pool.workers w = .returned) := by
  have : Nonempty (Fin hardware_concurrency) := ⟨⟨0, hthreads⟩⟩
  have hinv := inv_of_run h
  refine ⟨fun hopen => ⟨hinv.jobs hopen, fun hstuck => ?_⟩, fun hshut hstuck => ?_⟩
  · have hjobs := hinv.jobs hopen
    rw [hstuck.rests.tasks hinv.pool, hstuck.live, hstuck.launched hinv hopen, Multiset.coe_nil,
      zero_add, zero_add] at hjobs
    exact Multiset.coe_eq_coe.mp hjobs
  · exact hinv.pool.joined (hstuck.rests.joined hinv.pool (hstuck.stop hshut))

/-- Two threads; the job of one of them is lost. -/
theorem served_sample : ∃ s : Network (Fin 2),
    Run (Step (coreCount 2 0)) (init (Fin 2))
      [.launch, .pool (.work 0), .launch, .throw 0, .pool (.work 1), .test 1] s ∧
    (s.shutdown = false →
      (s.pool.tasks : Multiset ℕ) + ∑ w, s.liveAt w + s.lost = Multiset.range s.launched ∧
      (s.Stuck (coreCount 2 0) → s.lost.Perm (List.range (coreCount 2 0)))) ∧
    (s.shutdown = true → s.Stuck (coreCount 2 0) → ∀ w, s.pool.workers w = .returned) := by
  obtain ⟨s, hrun⟩ : ∃ s, Run (Step (coreCount 2 0)) (init (Fin 2))
      [.launch, .pool (.work 0), .launch, .throw 0, .pool (.work 1), .test 1] s :=
    ⟨_, Run.of_foldlM rfl⟩
  exact ⟨s, hrun, served (by decide) hrun⟩

end Served

end Network

end OsIrose.ThreadPool

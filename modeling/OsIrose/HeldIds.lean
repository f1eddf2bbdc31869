/-
The ids that are held: `IdManager` by itself, `map/src/id_manager.cpp`.

Those who got an id and have not given it back hold it. Seen as the numbers of a `Numbering`
the ids that were handed out are the free ones and those held, and none is both, so an id
that is got is held by nobody: one that was free, or the next one. That lasts as long as
there is a next one. `_max_id` has 16 bits and nothing looks whether it has wrapped around,
so with all 65536 ids held `get_free_id` starts with 0 again (`distinct_iff`).
-/
import OsIrose.Registry
import OsIrose.Numbering
import OsIrose.Runs
import Mathlib.Data.Fintype.Card
import Mathlib.Data.List.Nodup

set_option autoImplicit false

namespace OsIrose.HeldIds

open Function
open MapServer (Id IdManager)
open Registry (Buckets)

inductive Call
  | getFreeId
  | releaseId (id : Id)

/-- An `IdManager` and the ids that were got and not given back, the latest first. -/
structure Holding where
  idManager : IdManager := {}
  held : List Id := []

namespace Holding

def call (b : Buckets) (s : Holding) : Call → Holding
  | .getFreeId =>
      { idManager := (s.idManager.getFreeId b.front).2
        held := (s.idManager.getFreeId b.front).1 :: s.held }
  | .releaseId id =>
      { idManager := s.idManager.releaseId id
        held := s.held.erase id }

/-- Only an id that is held is released. -/
def Legal (s : Holding) : Call → Prop
  | .getFreeId => True
  | .releaseId id => id ∈ s.held

/-- An id is got while some id is not held. -/
def Room (s : Holding) : Call → Prop
  | .getFreeId => s.held.length < 65536
  | .releaseId _ => True

instance (s : Holding) : (call : Call) → Decidable (s.Legal call)
  | .getFreeId => isTrue trivial
  | .releaseId id => inferInstanceAs (Decidable (id ∈ s.held))

instance (s : Holding) : (call : Call) → Decidable (s.Room call)
  | .getFreeId => inferInstanceAs (Decidable (s.held.length < 65536))
  | .releaseId _ => isTrue trivial

/-! ## The numbers of a holding -/

/-- Who holds an id is known by that id. -/
def numbering (s : Holding) (created : ℕ) : Numbering Id where
  number id := if id ∈ s.held then some id.val else none
  free := {i | ∃ id ∈ s.idManager.freeIds, id.val = i}
  next := created

/-- Of the first `created` ids, all that were ever handed out, each is free or held once. -/
structure Accounted (s : Holding) (created : ℕ) : Prop where
  nodup : s.held.Nodup
  maxId : s.idManager.maxId = Fin.ofNat 65536 created
  le : created ≤ 65536
  sound : (s.numbering created).Sound
  complete : (s.numbering created).Complete

variable {b : Buckets} {s : Holding} {created : ℕ}

theorem number_eq_some {id : Id} (hid : id ∈ s.held) :
    (s.numbering created).number id = some id.val :=
  if_pos hid

theorem number_eq_none {id : Id} (hid : id ∉ s.held) :
    (s.numbering created).number id = none :=
  if_neg hid

theorem accounted_start : Accounted {} 0 where
  nodup := List.nodup_nil
  maxId := rfl
  le := Nat.zero_le _
  sound := by
    refine ⟨fun e i h => ?_, fun i h => ?_, fun e i h => ?_, fun e e' i h => ?_⟩
    · simp [numbering] at h
    · simp [numbering] at h
    · simp [numbering] at h
    · simp [numbering] at h
  complete := fun i h => absurd h.1 (Nat.not_lt_zero i)

/-- Getting an id numbers one more holder. -/
theorem number_getFreeId {idManager : IdManager} {id : Id} :
    (numbering { idManager, held := id :: s.held } created).number =
      update (s.numbering created).number id (some id.val) := by
  funext id'
  by_cases hid : id' = id
  · subst hid
    simp [numbering]
  · simp [numbering, hid]

theorem numbering_releaseId (hnodup : s.held.Nodup) {id : Id} (hid : id ∈ s.held) :
    (s.call b (.releaseId id)).numbering created =
      (s.numbering created).apply (.release id) := by
  refine Numbering.ext (funext fun id' => ?_) (Set.ext fun i => ?_) rfl
  · by_cases hne : id' = id
    · subst hne
      simp [numbering, call, Numbering.apply, hnodup.not_mem_erase]
    · simp [numbering, call, Numbering.apply, hne, List.mem_erase_of_ne hne]
  · simp only [numbering, call, IdManager.releaseId, Numbering.apply, Set.mem_union,
      Set.mem_ofPred_eq, Finset.mem_insert, if_pos hid, Option.some.injEq]
    constructor
    · rintro ⟨id', rfl | hfree, rfl⟩
      · exact Or.inr rfl
      · exact Or.inl ⟨id', hfree, rfl⟩
    · rintro (⟨id', hfree, rfl⟩ | rfl)
      · exact ⟨id', Or.inr hfree, rfl⟩
      · exact ⟨id, Or.inl rfl, rfl⟩

theorem Accounted.releaseId (h : s.Accounted created) {id : Id} (hid : id ∈ s.held) :
    (s.call b (.releaseId id)).Accounted created where
  nodup := h.nodup.erase id
  maxId := h.maxId
  le := h.le
  sound := by
    rw [numbering_releaseId h.nodup hid]
    exact h.sound.apply _
  complete := by
    rw [numbering_releaseId h.nodup hid]
    exact h.complete.apply fun _ hop => nomatch hop

theorem getFreeId_of_nonempty (hfree : s.idManager.freeIds.Nonempty) :
    s.idManager.getFreeId b.front = (b.front s.idManager.freeIds,
      { s.idManager with
        freeIds := s.idManager.freeIds.erase (b.front s.idManager.freeIds) }) :=
  if_pos hfree

/-- A free number is given away. -/
theorem gives_getFreeId_old (hfree : s.idManager.freeIds.Nonempty) :
    (s.numbering created).Gives (b.front s.idManager.freeIds)
      ((s.call b .getFreeId).numbering created) := by
  have hnumbering : (s.call b .getFreeId).numbering created =
      { s.numbering created with
        number := update (s.numbering created).number (b.front s.idManager.freeIds)
          (some (b.front s.idManager.freeIds).val)
        free := (s.numbering created).free \ {(b.front s.idManager.freeIds).val} } := by
    rw [call, getFreeId_of_nonempty hfree]
    refine Numbering.ext number_getFreeId (Set.ext fun i => ?_) rfl
    simp only [numbering, Set.mem_ofPred_eq, Finset.mem_erase, Set.mem_sdiff,
      Set.mem_singleton_iff]
    constructor
    · rintro ⟨id, ⟨hne, hid⟩, rfl⟩
      exact ⟨⟨id, hid, rfl⟩, fun hval => hne (Fin.ext hval)⟩
    · rintro ⟨⟨id, hid, rfl⟩, hne⟩
      exact ⟨id, ⟨fun heq => hne (congrArg Fin.val heq), hid⟩, rfl⟩
  exact hnumbering ▸ Numbering.Gives.old ⟨_, b.front_mem _ hfree, rfl⟩

/-- A free id is held by nobody. -/
theorem Accounted.getFreeId_old (h : s.Accounted created)
    (hfree : s.idManager.freeIds.Nonempty) : (s.call b .getFreeId).Accounted created := by
  have hget := getFreeId_of_nonempty (b := b) hfree
  have hgives : (s.numbering created).Gives _ ((s.call b .getFreeId).numbering created) :=
    gives_getFreeId_old hfree
  have hnew : b.front s.idManager.freeIds ∉ s.held := fun hheld =>
    h.sound.notFree _ _ (number_eq_some hheld) ⟨_, b.front_mem _ hfree, rfl⟩
  exact {
    nodup := by
      rw [call, hget]
      exact List.nodup_cons.mpr ⟨hnew, h.nodup⟩
    maxId := by
      rw [call, hget]
      exact h.maxId
    le := h.le
    sound := hgives.sound h.sound
    complete := hgives.complete (number_eq_none hnew) h.complete }

/-- If no id is free then there is a next one, or all are held. -/
theorem Accounted.created_lt (h : s.Accounted created) (hfree : ¬ s.idManager.freeIds.Nonempty)
    (hroom : s.held.length < 65536) : created < 65536 := by
  refine lt_of_le_of_ne h.le fun hall => ?_
  have hheld : ∀ id : Id, id ∈ s.held := by
    intro id
    have hlt : id.val < (s.numbering created).next := id.isLt.trans_eq hall.symm
    obtain ⟨id', hid', _⟩ | ⟨id', hid'⟩ :=
      ((h.sound.partitioned_iff_complete.mpr h.complete).iff id.val).mp hlt
    · exact absurd ⟨id', hid'⟩ hfree
    · simp only [numbering, Option.ite_none_right_eq_some, Option.some.injEq] at hid'
      exact Fin.ext hid'.2 ▸ hid'.1
  have hcard : Fintype.card Id ≤ s.held.length := by
    rw [← List.toFinset_card_of_nodup h.nodup, ← Finset.card_univ]
    exact Finset.card_le_card fun id _ => List.mem_toFinset.mpr (hheld id)
  rw [Fintype.card_fin] at hcard
  exact absurd hroom (not_lt.mpr hcard)

theorem getFreeId_of_empty (hfree : ¬ s.idManager.freeIds.Nonempty) :
    s.idManager.getFreeId b.front =
      (s.idManager.maxId, { s.idManager with maxId := s.idManager.maxId + 1 }) :=
  if_neg hfree

theorem Accounted.maxId_val (h : s.Accounted created) (hlt : created < 65536) :
    s.idManager.maxId.val = created := by
  rw [h.maxId]
  exact Nat.mod_eq_of_lt hlt

/-- The next number is given away. -/
theorem Accounted.gives_getFreeId_new (h : s.Accounted created)
    (hfree : ¬ s.idManager.freeIds.Nonempty) (hlt : created < 65536) :
    (s.numbering created).Gives s.idManager.maxId
      ((s.call b .getFreeId).numbering (created + 1)) := by
  have hnumbering : (s.call b .getFreeId).numbering (created + 1) =
      { s.numbering created with
        number := update (s.numbering created).number s.idManager.maxId (some created)
        next := created + 1 } := by
    rw [call, getFreeId_of_empty hfree]
    exact Numbering.ext (number_getFreeId.trans (by rw [h.maxId_val hlt]; rfl)) rfl rfl
  exact hnumbering ▸ Numbering.Gives.new

/-- The next id was never handed out. -/
theorem Accounted.getFreeId_new (h : s.Accounted created)
    (hfree : ¬ s.idManager.freeIds.Nonempty) (hlt : created < 65536) :
    (s.call b .getFreeId).Accounted (created + 1) := by
  have hget := getFreeId_of_empty (b := b) hfree
  have hgives := h.gives_getFreeId_new (b := b) hfree hlt
  have hnew : s.idManager.maxId ∉ s.held := fun hheld =>
    absurd (h.sound.lt _ _ (number_eq_some hheld)) (h.maxId_val hlt ▸ lt_irrefl _)
  exact {
    nodup := by
      rw [call, hget]
      exact List.nodup_cons.mpr ⟨hnew, h.nodup⟩
    maxId := by
      rw [call, hget]
      show s.idManager.maxId + 1 = _
      rw [h.maxId]
      exact Fin.ext (by simp [Fin.val_add])
    le := hlt
    sound := hgives.sound h.sound
    complete := hgives.complete (number_eq_none hnew) h.complete }

/-- **What one call keeps.** -/
theorem Accounted.call (h : s.Accounted created) {call : Call} (hlegal : s.Legal call)
    (hroom : s.Room call) : ∃ created', (s.call b call).Accounted created' := by
  cases call with
  | getFreeId =>
      by_cases hfree : s.idManager.freeIds.Nonempty
      · exact ⟨created, h.getFreeId_old hfree⟩
      · exact ⟨created + 1, h.getFreeId_new hfree (h.created_lt hfree hroom)⟩
  | releaseId id => exact ⟨created, h.releaseId hlegal⟩

/-! ## The results -/

/-- There are 65536 ids. -/
theorem length_le_of_nodup {ids : List Id} (h : ids.Nodup) : ids.length ≤ 65536 :=
  (List.Nodup.length_le_card h).trans_eq (Fintype.card_fin 65536)

/-- **When the ids held are distinct**: at every moment if and only if an id is only ever got
while fewer than 65536 are held. -/
theorem distinct_iff (b : Buckets) (calls : List Call)
    (hlegal : ∀ made call, made ++ [call] <+: calls →
      (made.foldl (Holding.call b) {}).Legal call) :
    (∀ made, made <+: calls → (made.foldl (Holding.call b) {}).held.Nodup) ↔
      ∀ made call, made ++ [call] <+: calls →
        (made.foldl (Holding.call b) {}).Room call := by
  refine @Runs.foldl_reached_iff_of_legal _ _ {} (Holding.call b)
    (fun s => ∃ created, s.Accounted created) (fun s => s.held.Nodup) Legal Room ?_ ?_ ?_
    ⟨0, accounted_start⟩ calls hlegal
  · rintro s call ⟨created, h⟩ hcall hroom
    exact h.call hcall hroom
  · rintro s ⟨created, h⟩
    exact h.nodup
  · intro s call _ _ hafter
    cases call with
    | getFreeId => exact Nat.lt_of_succ_le (length_le_of_nodup hafter)
    | releaseId id => trivial

/-- An id is got, released and got again. -/
theorem distinct_again :
    ([Call.getFreeId, .releaseId 0, .getFreeId].foldl
      (Holding.call Buckets.least) {}).held.Nodup := by
  refine (distinct_iff Buckets.least _ ?_).mpr ?_ _ List.prefix_rfl
  · simp only [Runs.forall_step_cons_iff]
    exact ⟨trivial, by decide, trivial, Runs.forall_step_nil _⟩
  · simp only [Runs.forall_step_cons_iff]
    exact ⟨by decide, trivial, by decide, Runs.forall_step_nil _⟩

theorem length_held_getFreeId (n : ℕ) :
    ((List.replicate n Call.getFreeId).foldl (Holding.call b) s).held.length =
      s.held.length + n := by
  induction n generalizing s with
  | zero => rfl
  | succ n ih =>
      rw [List.replicate_succ, List.foldl_cons, ih, call, List.length_cons]
      omega

/-- An id is got 65537 times and none is released. -/
theorem not_nodup_held_getFreeId :
    ¬ ((List.replicate 65537 Call.getFreeId).foldl (Holding.call Buckets.least) {}).held.Nodup := by
  intro h
  have hle := length_le_of_nodup h
  rw [length_held_getFreeId] at hle
  exact absurd hle (by decide)

end Holding

end OsIrose.HeldIds

/-
Conservation of items: the inventories of all characters and the entities that
`EntitySystem::buildItemEntity` makes of dropped items.

Every operation is a `Holdings.Move`, so nothing is written over an item that is there
(`perform_move`), and what all inventories and item entities together hold of a kind
changes only by what `addItem` takes and `removeItem` returns (`World.balanced`). What the
code does not keep is that an item entity is an item: `dropItem` builds one of an empty
slot and of no part of a stack just as well (`Drops`).
-/
import OsIrose.Inventory
import Mathlib.Algebra.BigOperators.Group.List.Basic
import Mathlib.Algebra.GroupWithZero.Nat
import Mathlib.Data.Fintype.Basic

set_option autoImplicit false

namespace OsIrose.Conservation

open Function Holdings Inventory Runs

/-! ## Items as goods -/

theorem vacant_default : ({} : Item).id = 0 := rfl

/-- An item without an id is no item; a stack splits by its count. -/
def goods : Goods Item where
  vacant := fun item => item.id = 0
  empty := {}
  vacant_empty := vacant_default
  splits := fun item rest part => ∃ n ≤ item.count,
    rest = { item with count := item.count - n } ∧ part = { item with count := n }

/-- How many of the items of a type and id an item is. -/
def amount (type id : ℕ) (item : Item) : ℕ :=
  if item.toBool ∧ item.type = type ∧ item.id = id then item.count else 0

theorem weighs_amount (type id : ℕ) : goods.Weighs (amount type id) where
  vacant := fun item (h : item.id = 0) => by simp [amount, Item.toBool, h]
  splits := by
    rintro item _ _ ⟨n, hn, rfl, rfl⟩
    show (if item.toBool ∧ item.type = type ∧ item.id = id then item.count else 0) =
      (if item.toBool ∧ item.type = type ∧ item.id = id then item.count - n else 0) +
        if item.toBool ∧ item.type = type ∧ item.id = id then n else 0
    split <;> omega

/-- The slots of `items_`. -/
def slots : Finset ℕ :=
  Finset.range maxItems

theorem mem_slots {i : ℕ} : i ∈ slots ↔ i < maxItems :=
  Finset.mem_range

/-! ## Every operation is a move -/

theorem swapItems_move (items : Items) (a b : ℕ) :
    Move goods slots items none none (next items (.swapItems a b)) := by
  cases hswap : swapItems items a b with
  | none =>
      simp only [next, perform, hswap]
      exact .stay
  | some result =>
      obtain ⟨a', b', items'⟩ := result
      obtain ⟨ha, hb, rfl⟩ := swapItems_eq_some hswap
      simp only [next, perform, hswap]
      exact .swap (mem_slots.mpr ha) (mem_slots.mpr hb)

theorem removeItem_move (items : Items) (slot : ℕ) :
    Move goods slots items none (some (removeItem items slot).1)
      (removeItem items slot).2.1 := by
  by_cases hslot : slot = 0 ∨ slot ≥ maxItems
  · simp only [removeItem, hslot, if_true]
    exact .nothing
  · simp only [removeItem, hslot, if_false]
    exact .take (mem_slots.mpr (not_le.mp (not_or.mp hslot).2))

theorem dropItem_move (items : Items) (packet : CliDropItem) :
    Move goods slots items none (dropItem items packet).2.1 (dropItem items packet).1 := by
  by_cases hitem : packet.item = 0 ∨ packet.item ≥ maxItems
  · simp only [dropItem, hitem, if_true]
    exact .stay
  · have hmem : packet.item ∈ slots := mem_slots.mpr (not_le.mp (not_or.mp hitem).2)
    by_cases hlt : packet.quantity < (items packet.item).count
    · rw [dropItem_of_lt hitem hlt]
      exact .part hmem ⟨packet.quantity, hlt.le, rfl, rfl⟩
    · obtain ⟨hitems, hground⟩ := dropItem_of_le hitem (not_lt.mp hlt)
      rw [hitems, hground]
      simp only [removeItem, hitem, if_false]
      exact .take hmem

/-- **Nothing is written over an item.** -/
theorem perform_move (items : Items) (op : Op) :
    Move goods slots items (perform items op).added (perform items op).taken
      (perform items op).items := by
  match op with
  | .processEquip packet u e =>
      show Move goods slots items none none (processEquip items packet u e).1
      by_cases hequips : Equips items packet u e
      · rw [processEquip_of_equips hequips]
        exact swapItems_move _ _ _
      · rw [processEquip_of_not_equips hequips]
        exact .stay
  | .dropItem packet => simpa [perform, Outcome.taken] using dropItem_move items packet
  | .addItem item =>
      by_cases hslot : findNextEmptySlot items = 0
      · simp only [perform, addItem, hslot, if_true, Outcome.taken, Option.or_none]
        exact .stay
      · have hfree := findNextEmptySlot_of_not_full
          (fun hfull => hslot (findNextEmptySlot_of_full hfull))
        simp only [perform, addItem, hslot, if_false, Outcome.taken, Option.or_none]
        exact .put (mem_slots.mpr hfree.2.1) item hfree.2.2
  | .removeItem slot => simpa [perform, Outcome.taken] using removeItem_move items slot
  | .swapItems a b => exact swapItems_move items a b

/-! ## The inventories of all characters -/

section World

variable {κ : Type*} [DecidableEq κ]

structure World (κ : Type*) where
  items : κ → Items
  /-- The items of the entities built. -/
  ground : List Item := []
  /-- What `addItem` took so far. -/
  added : List Item := []
  /-- What `removeItem` returned so far. -/
  removed : List Item := []

/-- A character performs an operation. -/
def World.next (s : World κ) (e : κ × Op) : World κ :=
  let o := perform (s.items e.1) e.2
  { items := update s.items e.1 o.items
    ground := s.ground ++ o.ground.toList
    added := s.added ++ o.added.toList
    removed := s.removed ++ o.removed.toList }

/-- How many items of a kind are in a list. -/
def amounts (type id : ℕ) (items : List Item) : ℕ :=
  (items.map (amount type id)).sum

/-- How many items of a kind the characters and the item entities hold. -/
def World.holds [Fintype κ] (type id : ℕ) (s : World κ) : ℕ :=
  total (total (amount type id) slots) Finset.univ s.items + amounts type id s.ground

variable [Fintype κ] (type id : ℕ)

theorem amounts_append (items items' : List Item) :
    amounts type id (items ++ items') = amounts type id items + amounts type id items' := by
  simp [amounts]

theorem amounts_toList (item : Option Item) :
    amounts type id item.toList = weight? (amount type id) item := by
  cases item with
  | none => rfl
  | some item => simp [amounts]

/-- What leaves an inventory either becomes an entity or is returned. -/
theorem weight?_taken (items : Items) (op : Op) :
    weight? (amount type id) (perform items op).taken =
      amounts type id (perform items op).ground.toList +
        amounts type id (perform items op).removed.toList := by
  simp only [amounts_toList]
  match op with
  | .processEquip packet u e => rfl
  | .dropItem packet => simp [perform, Outcome.taken]
  | .addItem item => cases hadd : addItem items item <;> simp [perform, Outcome.taken, hadd]
  | .removeItem slot => simp [perform, Outcome.taken]
  | .swapItems a b => rfl

/-- **One operation keeps the balance of every kind.** -/
theorem World.next_holds (s : World κ) (e : κ × Op) :
    (s.next e).holds type id + amounts type id (perform (s.items e.1) e.2).removed.toList =
      s.holds type id + amounts type id (perform (s.items e.1) e.2).added.toList := by
  have hmove := (perform_move (s.items e.1) e.2).total (weighs_amount type id)
  have hall := total_update (total (amount type id) slots) s.items (Finset.mem_univ e.1)
    (perform (s.items e.1) e.2).items
  rw [weight?_taken, ← amounts_toList] at hmove
  simp only [World.next, World.holds, amounts_append]
  omega

/-- What the characters and the item entities hold, with what has been taken from them and
given to them, is what they held at first. -/
def World.Balanced (s₀ s : World κ) : Prop :=
  ∀ type id, s.holds type id + amounts type id s.removed + amounts type id s₀.added =
    s₀.holds type id + amounts type id s₀.removed + amounts type id s.added

theorem World.balanced (s : World κ) (es : List (κ × Op)) :
    s.Balanced (es.foldl World.next s) := by
  refine (foldl_run World.next s es).state_invariant (fun type id => rfl) ?_
  rintro s' e _ hbalanced rfl type id
  have hstep := s'.next_holds type id e
  have hbefore := hbalanced type id
  simp only [World.next, amounts_append] at hstep hbefore ⊢
  omega

/-! ## What is put on the ground -/

/-- The item of an entity: it has an id, and there is at least one of it. -/
def OnGround (item : Item) : Prop :=
  item.id ≠ 0 ∧ 1 ≤ item.count

/-- `dropItem` refuses the slot, or the slot holds an item of which at least one is asked
for. -/
def Drops (items : Items) : Op → Prop
  | .dropItem packet =>
      (packet.item = 0 ∨ packet.item ≥ maxItems) ∨
        OnGround (items packet.item) ∧ 1 ≤ packet.quantity
  | _ => True

theorem dropItem_ground_iff (items : Items) (packet : CliDropItem) :
    (∀ item ∈ (dropItem items packet).2.1, OnGround item) ↔ Drops items (.dropItem packet) := by
  by_cases hitem : packet.item = 0 ∨ packet.item ≥ maxItems
  · simp [dropItem, Drops, hitem]
  · simp only [Drops, hitem, false_or]
    by_cases hlt : packet.quantity < (items packet.item).count
    · -- the entity holds the part asked for, of a stack that is larger
      rw [dropItem_of_lt hitem hlt]
      simp only [Option.mem_some_iff, forall_eq', OnGround]
      omega
    · rw [(dropItem_of_le hitem (not_lt.mp hlt)).2]
      simp only [Option.mem_some_iff, forall_eq', OnGround]
      omega

theorem ground_iff (items : Items) (op : Op) :
    (∀ item ∈ (perform items op).ground, OnGround item) ↔ Drops items op := by
  match op with
  | .processEquip packet u e => simp [perform, Drops]
  | .dropItem packet => exact dropItem_ground_iff items packet
  | .addItem item => cases hadd : addItem items item <;> simp [perform, Drops, hadd]
  | .removeItem slot => simp [perform, Drops]
  | .swapItems a b => simp [perform, Drops]

/-! ## Conservation -/

/-- The operation moves items of the character only, and writes over none. -/
structure World.Harmless (s : World κ) (e : κ × Op) : Prop where
  move : Move goods slots (s.items e.1) (perform (s.items e.1) e.2).added
    (perform (s.items e.1) e.2).taken ((s.next e).items e.1)
  others : ∀ k, k ≠ e.1 → (s.next e).items k = s.items k

omit [Fintype κ] in
theorem World.harmless (s : World κ) (e : κ × Op) : s.Harmless e where
  move := by
    simp only [World.next, update_self]
    exact perform_move _ _
  others := fun k hk => update_of_ne hk _ _

/-- Items are conserved in a run of operations. -/
structure World.Conserved (s : World κ) (es : List (κ × Op)) : Prop where
  balanced : ∀ p, p <+: es → s.Balanced (p.foldl World.next s)
  harmless : ∀ p e, p ++ [e] <+: es → (p.foldl World.next s).Harmless e
  ground : ∀ p, p <+: es → ∀ item ∈ (p.foldl World.next s).ground, OnGround item

/-- The characters with their inventories, and no item entities. -/
def World.start (inventories : κ → Items) : World κ where
  items := inventories

omit [Fintype κ] in
theorem World.next_ground_iff (s : World κ) (e : κ × Op)
    (h : ∀ item ∈ s.ground, OnGround item) :
    (∀ item ∈ (s.next e).ground, OnGround item) ↔ Drops (s.items e.1) e.2 := by
  rw [← ground_iff]
  simp only [World.next, List.mem_append, Option.mem_toList]
  exact ⟨fun hall item hi => hall item (.inr hi), fun hnew item hi => hi.elim (h item) (hnew item)⟩

end World

end OsIrose.Conservation

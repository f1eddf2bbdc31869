/-
Where the items of a map server come from: every client sends what it likes, and what it says is
read as a command.

A packet changes how many items of a kind the characters and the item entities hold together only
where it is a message that gives one (`handle_holds`). So over a run each item that is there more
than at the start stands for one such message (`supplied`): none is made by equipping, dropping or
moving, whatever the packets hold, and none is lost.
-/
import OsIrose.CommandText
import OsIrose.Conservation
import OsIrose.Join
import Mathlib.Algebra.BigOperators.Fin
import Mathlib.Data.Rat.Floor

set_option autoImplicit false

namespace OsIrose.ItemSupply

open Function Holdings Inventory Conservation CommandText
open MapServer (Components Effect Env)

/-! ## What a run gains -/

section Gains

variable {σ ε M : Type*} [AddCommMonoid M] {next : σ → ε → σ}

/-- What the steps of a run gain adds up. -/
theorem foldl_gains (value : σ → M) (gain : σ → ε → M)
    (hstep : ∀ s e, value (next s e) = value s + gain s e) (es : List ε) : ∀ s : σ,
      value (es.foldl next s) =
        value s + ∑ i : Fin es.length, gain ((es.take i).foldl next s) (es.get i) := by
  induction es with
  | nil => exact fun s => (add_zero _).symm
  | cons e es ih =>
      intro s
      -- the first step, and the run that is left
      have hsum := Fin.sum_univ_succ (fun i : Fin (es.length + 1) =>
        gain (((e :: es).take i).foldl next s) ((e :: es).get i))
      rw [List.foldl_cons, ih, hstep, add_assoc]
      exact congrArg (value s + ·) hsum.symm

end Gains

/-! ## The handlers -/

/-- A packet, with the text of what is said. -/
inductive Packet (K : Type*)
  | normalChat (message : String)
  | other (packet : MapServer.Packet K) (h : packet.type ≠ .NORMAL_CHAT)

section Handlers

variable {K D : Type*} [Field K] [LinearOrder K] [FloorSemiring K]
variable (lib : Library K) (env : Env K) (comps : Components K D)

/-- The handler of a packet. -/
def handle : Packet K → Effect K D
  | .normalChat message => (normalChat lib env comps message).effect
  | .other packet _ => MapServer.handle env comps packet

omit [FloorSemiring K] in
/-- The packet gives its sender an item of a type and an id. -/
def Supplies (packet : Packet K) (type id : ℕ) : Prop :=
  ∃ message, packet = .normalChat message ∧ Gives lib env comps message type id

/-- How many items of a kind the slots hold, where there are slots. -/
def bag (type id : ℕ) (inventory : Option Items) : ℕ :=
  inventory.elim 0 (total (amount type id) slots)

theorem bag_some (type id : ℕ) (items : Items) :
    bag type id (some items) = total (amount type id) slots items := rfl

variable {env}

/-- A new item is one of its kind. -/
theorem amount_newItem {type id : ℕ} (hid : id ≠ 0) (type' id' : ℕ) :
    amount type' id' (newItem type id) = if type = type' ∧ id = id' then 1 else 0 := by
  simp [amount, newItem, Item.toBool, hid]

open Classical in
omit [FloorSemiring K] in
/-- What is said moves nothing but the item that it gives. -/
theorem normalChat_move (henv : Keyed env.itemDef) (message : String) {items : Items}
    (hitems : comps.inventory = some items) : ∃ put items',
      (normalChat lib env comps message).effect.components.inventory = some items' ∧
        Move goods slots items put none items' ∧
        ∀ type id, weight? (amount type id) put =
          if Gives lib env comps message type id then 1 else 0 := by
  by_cases hgives : ∃ type id, Gives lib env comps message type id
  · obtain ⟨type, id, h⟩ := hgives
    obtain ⟨items₀, hitems₀, hroom⟩ := h.room
    obtain rfl : items = items₀ := Option.some.inj (hitems.symm.trans hitems₀)
    obtain ⟨-, hlt, hempty⟩ := findNextEmptySlot_of_not_full hroom
    obtain ⟨asked, hasks, -⟩ := h.asks
    refine ⟨some (newItem type id), _, congrArg (·.components.inventory) (h.effect henv hitems),
      .put (mem_slots.mpr hlt) _ hempty, fun type' id' => ?_⟩
    have honly : Gives lib env comps message type' id' ↔ type = type' ∧ id = id' :=
      ⟨h.unique, fun heq => heq.1 ▸ heq.2 ▸ h⟩
    rw [weight?_some, amount_newItem hasks.2.1]
    exact if_congr honly.symm rfl rfl
  · have hnone : ∀ type id, ¬ Gives lib env comps message type id :=
      fun type id h => hgives ⟨type, id, h⟩
    refine ⟨none, items, (inventory_of_not_gives henv hnone).trans hitems, .stay,
      fun type id => ?_⟩
    rw [if_neg (hnone type id), weight?_none]

/-- A packet that says nothing moves the items that are there, if any are. -/
theorem handle_moves (packet : MapServer.Packet K) (h : packet.type ≠ .NORMAL_CHAT) :
    ∃ (after : Items → Items) (dropped : Items → Option Item),
      (MapServer.handle env comps packet).components.inventory = comps.inventory.map after ∧
        (MapServer.handle env comps packet).ground = comps.inventory.bind dropped ∧
        ∀ items, Move goods slots items none (dropped items) (after items) := by
  have hstay : comps.inventory = comps.inventory.map id ∧
      none = comps.inventory.bind (fun _ => (none : Option Item)) := by
    cases comps.inventory <;> exact ⟨rfl, rfl⟩
  cases packet with
  | changeMapReq => exact ⟨id, fun _ => none, hstay.1, hstay.2, fun _ => .stay⟩
  | mouseCmd x y =>
      refine ⟨id, fun _ => none, Eq.trans ?_ hstay.1, hstay.2, fun _ => .stay⟩
      show (MapServer.processMove env comps x y).inventory = comps.inventory
      unfold MapServer.processMove
      split <;> rfl
  | stopMoving x y =>
      refine ⟨id, fun _ => none, Eq.trans ?_ hstay.1, hstay.2, fun _ => .stay⟩
      show (MapServer.stopMoving comps x y).inventory = comps.inventory
      unfold MapServer.stopMoving
      split <;> rfl
  | equipItem packet onUnequip onEquip =>
      exact ⟨_, fun _ => none, rfl, hstay.2,
        fun items => perform_move items (.processEquip packet onUnequip onEquip)⟩
  | dropItem packet => exact ⟨_, _, rfl, rfl, fun items => dropItem_move items packet⟩
  | normalChat message => exact absurd rfl h
  | other type => exact ⟨id, fun _ => none, hstay.1, hstay.2, fun _ => .stay⟩

open Classical in
/-- **A packet makes what it is said to give, and nothing else.** -/
theorem handle_bag (henv : Keyed env.itemDef) (packet : Packet K) (type id : ℕ) :
    bag type id (handle lib env comps packet).components.inventory +
        weight? (amount type id) (handle lib env comps packet).ground =
      bag type id comps.inventory + if Supplies lib env comps packet type id then 1 else 0 := by
  cases packet with
  | normalChat message =>
      have hsupplies : Supplies lib env comps (.normalChat message) type id ↔
          Gives lib env comps message type id :=
        ⟨fun ⟨_, heq, h⟩ => Packet.normalChat.inj heq ▸ h, fun h => ⟨message, rfl, h⟩⟩
      rw [if_congr hsupplies rfl rfl]
      show bag type id (normalChat lib env comps message).effect.components.inventory +
        weight? _ (normalChat lib env comps message).effect.ground = _
      rw [normalChat_ground, weight?_none, add_zero]
      cases hitems : comps.inventory with
      | none =>
          -- nobody gets an item without a bag
          have hnone : ∀ type id, ¬ Gives lib env comps message type id := by
            intro type id h
            obtain ⟨items, hsome, -⟩ := h.room
            exact Option.some_ne_none items (hsome.symm.trans hitems)
          rw [inventory_of_not_gives henv hnone, hitems, if_neg (hnone type id)]
          rfl
      | some items =>
          obtain ⟨put, items', hafter, hmove, hput⟩ :=
            normalChat_move lib comps henv message hitems
          have htotal := hmove.total (weighs_amount type id)
          rw [weight?_none, add_zero] at htotal
          rw [hafter, ← hput, bag_some, bag_some, htotal]
  | other packet h =>
      have hnot : ¬ Supplies lib env comps (.other packet h) type id :=
        fun ⟨_, heq, _⟩ => nomatch heq
      obtain ⟨after, dropped, hafter, hdropped, hmove⟩ := handle_moves comps packet h
      rw [if_neg hnot, add_zero]
      show bag type id (MapServer.handle env comps packet).components.inventory +
        weight? _ (MapServer.handle env comps packet).ground = _
      rw [hafter, hdropped]
      cases comps.inventory with
      | none => rfl
      | some items =>
          have htotal := (hmove items).total (weighs_amount type id)
          rw [weight?_none, add_zero] at htotal
          rw [Option.map_some, Option.bind_some, bag_some, bag_some, htotal]

end Handlers

/-! ## Everybody -/

section World

variable {κ K D : Type*} [DecidableEq κ] [Field K] [LinearOrder K] [FloorSemiring K]

/-- The characters, and the items of the item entities. -/
structure World (κ K D : Type*) where
  components : κ → Components K D
  ground : List Item := []

variable (lib : Library K) (env : Env K)

/-- The packet of a character is handled. -/
def next (w : World κ K D) (e : κ × Packet K) : World κ K D :=
  let effect := handle lib env (w.components e.1) e.2
  { components := update w.components e.1 effect.components
    ground := w.ground ++ effect.ground.toList }

def run (w : World κ K D) (es : List (κ × Packet K)) : World κ K D :=
  es.foldl (next lib env) w

/-- How many items of a kind there are. -/
def World.holds [Fintype κ] (w : World κ K D) (type id : ℕ) : ℕ :=
  ∑ k, bag type id (w.components k).inventory + amounts type id w.ground

variable [Fintype κ] {env}

open Classical in
/-- One packet, of anyone. -/
theorem next_holds (henv : Keyed env.itemDef) (w : World κ K D) (e : κ × Packet K) (type id : ℕ) :
    (next lib env w e).holds type id = w.holds type id +
      if Supplies lib env (w.components e.1) e.2 type id then 1 else 0 := by
  have hbag := handle_bag lib (w.components e.1) henv e.2 type id
  have hothers := total_update (fun comps : Components K D => bag type id comps.inventory)
    w.components (Finset.mem_univ e.1) (handle lib env (w.components e.1) e.2).components
  unfold total at hothers
  unfold World.holds next
  dsimp only at hothers ⊢
  rw [amounts_append, amounts_toList]
  omega

open Classical in
/-- **Every item is accounted for.** -/
theorem supplied (henv : Keyed env.itemDef) (w : World κ K D) (es : List (κ × Packet K))
    (type id : ℕ) : (run lib env w es).holds type id = w.holds type id +
      (Finset.univ.filter (fun i : Fin es.length =>
        Supplies lib env ((run lib env w (es.take i)).components (es.get i).1) (es.get i).2
          type id)).card := by
  rw [Finset.card_filter]
  exact foldl_gains (fun w : World κ K D => w.holds type id) _
    (fun w e => next_holds lib henv w e type id) es w

/-- There is one item, of type 1. -/
def sampleEnv : Env ℚ :=
  { MapServer.World.sampleEnv with itemDef := itemDatabase [⟨1, 5, "item.lua"⟩] }

/-- A character with an empty bag. -/
def sampleWorld : World Unit ℚ Unit where
  components _ := { basic := some { id := 1 }, inventory := some (fun _ => {}) }

theorem gives_sample :
    Gives sampleLibrary sampleEnv (sampleWorld.components ()) "/item 257 5" 1 5 := by
  have hasks : Asks sampleLibrary "/item 257 5" 257 (min 5 65535) :=
    asks_of_digits sampleLibrary _ (by decide) (by decide) (by decide) (by decide)
  refine ⟨Option.some_ne_none _, ⟨257, hasks, rfl⟩, ⟨_, rfl, rfl⟩, _, rfl, ?_⟩
  exact fun hfull => hfull 12 (by decide) (by decide) rfl

theorem holds_sampleWorld (type id : ℕ) : sampleWorld.holds type id = 0 := by
  have hbag : bag type id (some fun _ => {}) = 0 := by
    rw [bag_some]
    exact Finset.sum_eq_zero fun i _ => (weighs_amount type id).vacant _ vacant_default
  exact (add_zero _).trans (Finset.sum_eq_zero fun _ _ => hbag)

/-- The item that the one message gives is of type 257 % 256. -/
theorem supplied_sample :
    (run sampleLibrary sampleEnv sampleWorld [((), .normalChat "/item 257 5")]).holds 1 5 = 1 := by
  classical
  have hkeyed : Keyed sampleEnv.itemDef := keyed_itemDatabase _
  rw [supplied sampleLibrary hkeyed sampleWorld [((), .normalChat "/item 257 5")] 1 5,
    holds_sampleWorld, zero_add, Finset.card_eq_one]
  refine ⟨⟨0, Nat.zero_lt_one⟩, Finset.eq_singleton_iff_unique_mem.mpr ⟨?_, fun i _ => ?_⟩⟩
  · exact Finset.mem_filter.mpr ⟨Finset.mem_univ _, "/item 257 5", rfl, gives_sample⟩
  · exact Fin.ext (Nat.lt_one_iff.mp i.isLt)

end World

end OsIrose.ItemSupply

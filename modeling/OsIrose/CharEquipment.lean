/-
The equipment in a list of characters: `CCharClient::SendCharListReply`
(`char/src/ccharclient.cpp`) with `getPosition` and `addEquipItem` of
`rosecommon/src/packets/srv_characterlistreply.cpp`.

A row of the query is written into the packet at the place of `addEquipItem`'s index and
`getPosition`, and the last row at a place counts. Three things put a wrong item there or
keep the right one out: the default of `getPosition`, by which the slots 0 and 9 of the query
go to the right hand; the `uint8_t` index, by which the characters from the 257th on write
over the first ones and the 256th is not written at all; and the ten bits of an item id.
`list_iff` says when the list is right all the same.
-/
import OsIrose.CharDelete
import OsIrose.LastWrite
import Mathlib.Data.List.Enum
import Mathlib.Tactic.IntervalCases

set_option autoImplicit false

namespace OsIrose.CharClient

open Characters (InventoryRow)
open LastWrite
open Packet (CharacterListReply CharInfo MAX_EQUIPPED_ITEMS setItem)

/-! ## What a list is to show -/

/-- The slot of a position: `Inventory::Position` for each `equipped_position`. -/
def slotOf (p : Fin MAX_EQUIPPED_ITEMS) : ℕ :=
  match p.val with
  | 0 => 2  -- helmet
  | 1 => 3  -- armor
  | 2 => 5  -- gauntlet
  | 3 => 6  -- boots
  | 4 => 1  -- goggles
  | 5 => 4  -- backpack
  | 6 => 7  -- right hand
  | _ => 8  -- left hand

/-- The field `id_` of an item. -/
def itemId (data : BitVec 32) : ℕ :=
  (data.setWidth 10).toNat

/-- What a list shows at a position of the character with that index. -/
def shown (reply : CharacterListReply) (q : ℕ × Fin MAX_EQUIPPED_ITEMS) : ℕ :=
  (reply.character_list_[q.1]?).elim 0 fun character => itemId (character.items_.get q.2)

/-- `id` is the item that the character wears in the slot, or 0 if it wears none. -/
structure Wears (inventory : List InventoryRow) (charid slot id : ℕ) : Prop where
  row : ∀ item ∈ inventory, item.charId = charid → item.slot = slot → id = item.itemid
  empty : (∀ item ∈ inventory, item.charId = charid → item.slot ≠ slot) → id = 0

/-- Each character is in the list, with what it wears at each of its positions. -/
structure Shows (rows : List CharacterRow) (inventory : List InventoryRow)
    (reply : CharacterListReply) : Prop where
  length : reply.character_list_.length = rows.length
  wears : ∀ k row, rows[k]? = some row → ∀ p,
    Wears inventory row.id (slotOf p) (shown reply (k, p))

/-- The rows of the account. -/
def State.listed (s : State) : List CharacterRow :=
  s.tables.characters.select fun row => row.userid = s.userId

/-- The client is sent its list, and the list is right. -/
def ListRight (env : Env) (s : State) : Prop :=
  ∃ reply, (sendCharListReply env s).state.sent = s.sent ++ [.charList s.listed reply] ∧
    Shows s.listed s.tables.inventory reply

/-! ## Where the rows go -/

theorem getPosition_lt (slot : ℕ) : (getPosition slot).toNat < MAX_EQUIPPED_ITEMS := by
  unfold getPosition
  split <;> decide

/-- `getPosition` as a position. -/
def place (slot : ℕ) : Fin MAX_EQUIPPED_ITEMS :=
  ⟨(getPosition slot).toNat, getPosition_lt slot⟩

@[simp] theorem place_slotOf (p : Fin MAX_EQUIPPED_ITEMS) : place (slotOf p) = p := by
  revert p
  decide

theorem slotOf_mem (p : Fin MAX_EQUIPPED_ITEMS) : 1 ≤ slotOf p ∧ slotOf p ≤ 8 := by
  revert p
  decide

theorem slotOf_place {slot : ℕ} (hpos : 1 ≤ slot) (hle : slot ≤ 8) :
    slotOf (place slot) = slot := by
  interval_cases slot <;> rfl

/-- A row that the loop writes, with the index of its character. -/
abbrev Write := ℕ × InventoryRow

/-- The rows of the query for a character. -/
def worn (inventory : List InventoryRow) (charid : ℕ) : List InventoryRow :=
  inventory.filter fun item => item.charId = charid ∧ item.slot < 10

/-- All that is written, in order. -/
def writes (inventory : List InventoryRow) (rows : List CharacterRow) (n : ℕ) : List Write :=
  (rows.zipIdx n).flatMap fun row => (worn inventory row.1.id).map fun item => (row.2, item)

/-- The place that a row goes to. With 256 characters the counter is back at 0, and
`addEquipItem` finds no character with the last index. -/
def lands (w : Write) : Option (ℕ × Fin MAX_EQUIPPED_ITEMS) :=
  if w.1 % 256 = 255 then none else some (w.1 % 256, place w.2.slot)

/-- What a row leaves in the ten bits of `id_`. -/
def Write.value (w : Write) : ℕ :=
  w.2.itemid % 1024

def write (reply : CharacterListReply) (w : Write) : CharacterListReply :=
  reply.addEquipItem (BitVec.ofNat 8 w.1) (getPosition w.2.slot) (BitVec.ofNat 16 w.2.itemid) 0 0 0

theorem writes_cons (inventory : List InventoryRow) (row : CharacterRow)
    (rows : List CharacterRow) (n : ℕ) :
    writes inventory (row :: rows) n =
      ((worn inventory row.id).map fun item => (n, item)) ++ writes inventory rows (n + 1) := by
  rw [writes, List.zipIdx_cons, List.flatMap_cons]
  rfl

theorem addEquipment_eq (inventory : List InventoryRow) (id charid : ℕ)
    (reply : CharacterListReply) :
    addEquipment inventory id charid reply =
      ((worn inventory charid).map fun item => ((id, item) : Write)).foldl write reply := by
  rw [List.foldl_map]
  rfl

theorem mem_writes {inventory : List InventoryRow} {rows : List CharacterRow} {w : Write} :
    w ∈ writes inventory rows 0 ↔
      ∃ row, rows[w.1]? = some row ∧ w.2 ∈ inventory ∧ w.2.charId = row.id ∧ w.2.slot < 10 := by
  simp only [writes, worn, List.mem_flatMap, List.mem_map, List.mem_filter, decide_eq_true_eq]
  constructor
  · rintro ⟨⟨row, k⟩, hrow, item, ⟨hitem, hcharid, hslot⟩, rfl⟩
    exact ⟨row, List.mem_zipIdx_iff_getElem?.mp hrow, hitem, hcharid, hslot⟩
  · rintro ⟨row, hrow, hitem, hcharid, hslot⟩
    exact ⟨(row, w.1), List.mem_zipIdx_iff_getElem?.mpr hrow, w.2, ⟨hitem, hcharid, hslot⟩, rfl⟩

/-- No row goes to the 256th character or behind it. -/
theorem lt_of_lands {w : Write} {q : ℕ × Fin MAX_EQUIPPED_ITEMS} (h : lands w = some q) :
    q.1 < 255 := by
  unfold lands at h
  split_ifs at h with hlast
  obtain rfl := Option.some.inj h
  dsimp only
  omega

theorem lands_of_lt {k : ℕ} (hk : k < 255) (item : InventoryRow) :
    lands (k, item) = some (k, place item.slot) := by
  have hmod : k % 256 = k := Nat.mod_eq_of_lt (by omega)
  unfold lands
  dsimp only
  rw [hmod, if_neg (by omega)]

/-! ## What the loop leaves -/

theorem itemId_setItem (data : BitVec 32) (id gem : BitVec 16) (socket grade : BitVec 8) :
    itemId (setItem data id gem socket grade) = id.toNat % 1024 := by
  unfold itemId setItem
  rw [BitVec.setWidth_append_eq_right, BitVec.toNat_setWidth]

section

variable {reply : CharacterListReply}

theorem shown_of_length_le {q : ℕ × Fin MAX_EQUIPPED_ITEMS}
    (h : reply.character_list_.length ≤ q.1) : shown reply q = 0 := by
  rw [shown, List.getElem?_eq_none h]
  rfl

/-- A new character wears nothing. -/
theorem shown_addCharacter (words : List.Vector (BitVec 32) MAX_EQUIPPED_ITEMS)
    (name : List ByteMem.Byte) (race : BitVec 8) (level job : BitVec 16)
    (face hair delete_time : BitVec 32) (q : ℕ × Fin MAX_EQUIPPED_ITEMS) :
    shown (reply.addCharacter words name race level job face hair delete_time) q =
      shown reply q := by
  rcases lt_trichotomy q.1 reply.character_list_.length with hlt | heq | hgt
  · rw [shown, shown, CharacterListReply.addCharacter, List.getElem?_append_left hlt]
  · rw [shown_of_length_le heq.ge, shown, CharacterListReply.addCharacter, heq,
      List.getElem?_concat_length, Option.elim_some, List.Vector.get_map, itemId_setItem]
    rfl
  · rw [shown_of_length_le hgt.le, shown_of_length_le]
    rw [CharacterListReply.addCharacter, List.length_append, List.length_singleton]
    omega

theorem length_write (w : Write) :
    (write reply w).character_list_.length = reply.character_list_.length := by
  unfold write CharacterListReply.addEquipItem
  split_ifs
  · exact List.length_modify _ _ _
  · rfl

/-- A row of the character that was added last. -/
theorem shown_write {w : Write} (hlength : reply.character_list_.length = w.1 + 1)
    (q : ℕ × Fin MAX_EQUIPPED_ITEMS) :
    shown (write reply w) q = if lands w = some q then w.value else shown reply q := by
  have hcount : BitVec.ofNat 8 w.1 < reply.character_count_ ↔ w.1 % 256 ≠ 255 := by
    rw [reply.counted, hlength, BitVec.lt_def, BitVec.toNat_ofNat, BitVec.toNat_ofNat]
    omega
  unfold write CharacterListReply.addEquipItem lands
  by_cases hlast : w.1 % 256 = 255
  · rw [dif_neg (fun h => hcount.mp h.1 hlast), if_pos hlast, if_neg (Option.some_ne_none q).symm]
  · rw [dif_pos ⟨hcount.mpr hlast, getPosition_lt w.2.slot⟩, if_neg hlast]
    unfold shown
    dsimp only
    rw [List.getElem?_modify, BitVec.toNat_ofNat]
    simp only [Nat.reducePow, Option.map_eq_map]
    by_cases hk : w.1 % 256 = q.1
    · obtain ⟨character, hcharacter⟩ : ∃ character, reply.character_list_[q.1]? = some character :=
        ⟨_, List.getElem?_eq_getElem (by omega)⟩
      simp only [hcharacter, hk, if_true, Option.map_some, Option.elim_some]
      by_cases hp : place w.2.slot = q.2
      · have hq : (q.1, place w.2.slot) = q := Prod.ext rfl hp
        rw [if_pos (congrArg some hq), ← hp]
        show itemId ((character.items_.set (place w.2.slot) _).get (place w.2.slot)) = _
        rw [List.Vector.get_set_same, itemId_setItem, BitVec.toNat_ofNat]
        exact Nat.mod_mod_of_dvd _ (by decide)
      · have hq : some (q.1, place w.2.slot) ≠ some q :=
          fun h => hp (congrArg Prod.snd (Option.some.inj h))
        rw [if_neg hq]
        show itemId ((character.items_.set (place w.2.slot) _).get q.2) = _
        rw [List.Vector.get_set_of_ne hp]
    · have hq : some (w.1 % 256, place w.2.slot) ≠ some q :=
        fun h => hk (congrArg Prod.fst (Option.some.inj h))
      simp only [if_neg hq, if_neg hk, Option.map_id_fun', id]

theorem length_addEquipment (inventory : List InventoryRow) (id charid : ℕ) :
    (addEquipment inventory id charid reply).character_list_.length =
      reply.character_list_.length := by
  rw [addEquipment_eq]
  generalize (worn inventory charid).map _ = ws
  induction ws generalizing reply with
  | nil => rfl
  | cons w ws ih => rw [List.foldl_cons, ih, length_write]

/-- The rows of one character. -/
theorem shown_addEquipment (inventory : List InventoryRow) {id : ℕ} (charid : ℕ)
    (hlength : reply.character_list_.length = id + 1) (q : ℕ × Fin MAX_EQUIPPED_ITEMS) :
    shown (addEquipment inventory id charid reply) q =
      (lastAt lands ((worn inventory charid).map fun item => (id, item)) q).elim (shown reply q)
        Write.value := by
  have hid : ∀ w ∈ (worn inventory charid).map fun item => ((id, item) : Write), w.1 = id := by
    intro w hw
    obtain ⟨item, -, rfl⟩ := List.mem_map.mp hw
    rfl
  rw [addEquipment_eq]
  refine get_foldl (fun reply => reply.character_list_.length = id + 1) ?_ ?_ hlength q
  · exact fun w _ reply hreply => (length_write w).trans hreply
  · exact fun w hw reply q hreply => shown_write (by rw [hid w hw, hreply]) q

end

section

variable (env : Env) (inventory : List InventoryRow)

theorem length_listReply {reply : CharacterListReply} (rows : List CharacterRow) (n : ℕ) :
    (listReply env inventory n reply rows).character_list_.length =
      reply.character_list_.length + rows.length := by
  induction rows generalizing n reply with
  | nil => rfl
  | cons row rows ih =>
      rw [listReply, ih, length_addEquipment, CharacterListReply.addCharacter, List.length_append,
        List.length_singleton, List.length_cons]
      omega

/-- What the loop leaves at a place is what the last row that goes there says. -/
theorem shown_listReply {reply : CharacterListReply} (rows : List CharacterRow) {n : ℕ}
    (hlength : reply.character_list_.length = n) (q : ℕ × Fin MAX_EQUIPPED_ITEMS) :
    shown (listReply env inventory n reply rows) q =
      (lastAt lands (writes inventory rows n) q).elim (shown reply q) Write.value := by
  induction rows generalizing n reply with
  | nil => rfl
  | cons row rows ih =>
      have hadded : ∀ name race level job face hair delete_time,
          (reply.addCharacter (env.words n) name race level job face hair
            delete_time).character_list_.length = n + 1 := by
        intros
        rw [CharacterListReply.addCharacter, List.length_append, List.length_singleton, hlength]
      rw [listReply, ih ((length_addEquipment _ _ _).trans (hadded ..)),
        shown_addEquipment _ _ (hadded ..), shown_addCharacter, writes_cons, lastAt_append]
      cases lastAt lands (writes inventory rows (n + 1)) q with
      | none => rfl
      | some w => rfl

end

/-! ## When the list is right -/

/-- The rows of an account are such that the list comes out right. -/
structure Orderly (rows : List CharacterRow) (inventory : List InventoryRow) : Prop where
  /-- An item has ten bits, and from the 256th character on there is none. -/
  fits : ∀ k row, rows[k]? = some row → ∀ item ∈ inventory, item.charId = row.id →
    1 ≤ item.slot → item.slot ≤ 8 → if k < 255 then item.itemid < 1024 else item.itemid = 0
  /-- Two rows of a slot hold the same item. -/
  agree : ∀ row ∈ rows, ∀ item ∈ inventory, ∀ item' ∈ inventory, item.charId = row.id →
    item'.charId = row.id → 1 ≤ item.slot → item.slot ≤ 8 → item.slot = item'.slot →
    item.itemid = item'.itemid
  /-- A row of another slot or another character that is the last one to go to a position
  holds what is worn there. -/
  stray : ∀ k row p w, rows[k]? = some row →
    lastAt lands (writes inventory rows 0) (k, p) = some w →
    ¬ (w.1 = k ∧ w.2.slot = slotOf p) → Wears inventory row.id (slotOf p) w.value

section

variable {rows : List CharacterRow} {inventory : List InventoryRow}

/-- The positions of one character: what they show is the last row that goes there. -/
theorem wears_iff {k : ℕ} {row : CharacterRow} (hrow : rows[k]? = some row)
    (p : Fin MAX_EQUIPPED_ITEMS) :
    Wears inventory row.id (slotOf p)
        ((lastAt lands (writes inventory rows 0) (k, p)).elim 0 Write.value) ↔
      (∀ item ∈ inventory, item.charId = row.id → item.slot = slotOf p →
        (if k < 255 then item.itemid < 1024 else item.itemid = 0) ∧
        ∀ item' ∈ inventory, item'.charId = row.id → item'.slot = slotOf p →
          item.itemid = item'.itemid) ∧
      ∀ w, lastAt lands (writes inventory rows 0) (k, p) = some w →
        ¬ (w.1 = k ∧ w.2.slot = slotOf p) → Wears inventory row.id (slotOf p) w.value := by
  constructor
  · intro h
    refine ⟨fun item hitem hcharid hslot => ⟨?_, ?_⟩, fun w hw _ => ?_⟩
    · have hid := h.row item hitem hcharid hslot
      split_ifs with hk
      · rw [← hid]
        cases lastAt lands (writes inventory rows 0) (k, p) with
        | none => exact Nat.succ_pos _
        | some w => exact Nat.mod_lt _ (by decide)
      · -- nothing goes to the 256th character or behind it
        have hnone : lastAt lands (writes inventory rows 0) (k, p) = none :=
          lastAt_eq_none_iff.mpr fun w _ hlands => hk (lt_of_lands hlands)
        rw [← hid, hnone]
        rfl
    · intro item' hitem' hcharid' hslot'
      exact (h.row item hitem hcharid hslot).symm.trans (h.row item' hitem' hcharid' hslot')
    · rw [hw] at h
      exact h
  · rintro ⟨hplain, hstray⟩
    cases hlast : lastAt lands (writes inventory rows 0) (k, p) with
    | none =>
        refine ⟨fun item hitem hcharid hslot => ?_, fun _ => rfl⟩
        by_cases hk : k < 255
        · -- the row itself goes there
          have hvisible : item.slot < 10 := by
            rw [hslot]
            exact (slotOf_mem p).2.trans_lt (by decide)
          have hmem : (k, item) ∈ writes inventory rows 0 :=
            mem_writes.mpr ⟨row, hrow, hitem, hcharid, hvisible⟩
          refine absurd ?_ (lastAt_eq_none_iff.mp hlast _ hmem)
          rw [lands_of_lt hk, hslot, place_slotOf]
        · have hzero := (hplain item hitem hcharid hslot).1
          rw [if_neg hk] at hzero
          exact hzero.symm
    | some w =>
        rw [Option.elim_some]
        by_cases hown : w.1 = k ∧ w.2.slot = slotOf p
        · obtain ⟨hmem, hlands⟩ := mem_of_lastAt hlast
          obtain ⟨row', hrow', hitem, hcharid, -⟩ := mem_writes.mp hmem
          obtain rfl : row' = row := by
            rw [hown.1, hrow] at hrow'
            exact (Option.some.inj hrow').symm
          obtain ⟨hfits, hagree⟩ := hplain w.2 hitem hcharid hown.2
          rw [if_pos (lt_of_lands hlands)] at hfits
          have hvalue : w.value = w.2.itemid := Nat.mod_eq_of_lt hfits
          rw [hvalue]
          exact ⟨hagree, fun hempty => absurd hown.2 (hempty w.2 hitem hcharid)⟩
        · exact hstray w hlast hown

/-- Rows of the visible slots, at most 255 characters and small ids. -/
theorem Orderly.of_plain (hfew : rows.length ≤ 255)
    (hslot : ∀ item ∈ inventory, item.slot ≠ 0 ∧ item.slot ≠ 9)
    (hfits : ∀ item ∈ inventory, item.itemid < 1024)
    (hagree : ∀ item ∈ inventory, ∀ item' ∈ inventory, item.charId = item'.charId →
      item.slot = item'.slot → item.itemid = item'.itemid) : Orderly rows inventory where
  fits := by
    intro k row hrow item hitem _ _ _
    have hk := (List.getElem?_eq_some_iff.mp hrow).1
    rw [if_pos (by omega)]
    exact hfits item hitem
  agree := fun _ _ item hitem item' hitem' hcharid hcharid' _ _ =>
    hagree item hitem item' hitem' (hcharid.trans hcharid'.symm)
  stray := by
    intro k row p w _ hlast hstray
    obtain ⟨hmem, hlands⟩ := mem_of_lastAt hlast
    obtain ⟨row', hrow', hitem, -, hvisible⟩ := mem_writes.mp hmem
    have hk := (List.getElem?_eq_some_iff.mp hrow').1
    obtain ⟨hzero, hnine⟩ := hslot w.2 hitem
    obtain ⟨k', item⟩ := w
    rw [lands_of_lt (by omega)] at hlands
    obtain ⟨rfl, rfl⟩ := Prod.mk.inj (Option.some.inj hlands)
    exact absurd ⟨rfl, (slotOf_place (by omega) (by omega)).symm⟩ hstray

/-- What the loop leaves of an empty list is right for orderly rows, whatever their order. -/
theorem shows_listReply_iff (env : Env) :
    Shows rows inventory (listReply env inventory 0 .empty rows) ↔ Orderly rows inventory := by
  have hshown : ∀ q, shown (listReply env inventory 0 .empty rows) q =
      (lastAt lands (writes inventory rows 0) q).elim 0 Write.value :=
    shown_listReply env inventory rows rfl
  constructor
  · intro hshows
    have hwears := hshows.wears
    simp only [hshown] at hwears
    refine ⟨?_, ?_, ?_⟩
    · intro k row hrow item hitem hcharid hpos hle
      have hposition := ((wears_iff hrow (place item.slot)).mp (hwears k row hrow _)).1
      exact (hposition item hitem hcharid (slotOf_place hpos hle).symm).1
    · intro row hmem item hitem item' hitem' hcharid hcharid' hpos hle hslot
      obtain ⟨k, hrow⟩ := List.mem_iff_getElem?.mp hmem
      have hposition := ((wears_iff hrow (place item.slot)).mp (hwears k row hrow _)).1
      have hplace := slotOf_place hpos hle
      exact (hposition item hitem hcharid hplace.symm).2 item' hitem' hcharid'
        (hslot.symm.trans hplace.symm)
    · intro k row p w hrow hlast hstray
      exact ((wears_iff hrow p).mp (hwears k row hrow p)).2 w hlast hstray
  · intro h
    refine ⟨?_, fun k row hrow p => ?_⟩
    · rw [length_listReply]
      exact Nat.zero_add _
    · rw [hshown, wears_iff hrow p]
      refine ⟨fun item hitem hcharid hslot => ?_, fun w => h.stray k row p w hrow⟩
      obtain ⟨hpos, hle⟩ := slotOf_mem p
      rw [← hslot] at hpos hle
      refine ⟨h.fits k row hrow item hitem hcharid hpos hle, fun item' hitem' hcharid' hslot' => ?_⟩
      exact h.agree row (List.mem_of_getElem? hrow) item hitem item' hitem' hcharid hcharid' hpos
        hle (hslot.trans hslot'.symm)

end

/-- A client that is logged in is sent the list that the loop leaves. -/
theorem sent_sendCharListReply (env : Env) {s : State} (hlogged : s.loginState = .LOGGEDIN) :
    (sendCharListReply env s).state.sent = s.sent ++
      [.charList s.listed (listReply env s.tables.inventory 0 .empty s.listed)] := by
  rw [sendCharListReply, if_neg (not_not.mpr hlogged)]
  rfl

/-- **When the list of an account is right**, whatever the order of its rows. -/
theorem list_iff (env : Env) (s : State) (hlogged : s.loginState = .LOGGEDIN) :
    ListRight env s ↔ Orderly s.listed s.tables.inventory := by
  rw [ListRight, sent_sendCharListReply env hlogged, ← shows_listReply_iff env]
  constructor
  · rintro ⟨reply, hsent, hshows⟩
    obtain rfl : listReply env s.tables.inventory 0 .empty s.listed = reply := by
      injection List.singleton_inj.mp (List.append_cancel_left hsent)
    exact hshows
  · exact fun hshows => ⟨_, rfl, hshows⟩

/-! ## Two inventories -/

/-- The account's only character with these rows. -/
def wearing (inventory : List InventoryRow) : State :=
  { loggedIn firstCharacter with
    tables := { (loggedIn firstCharacter).tables with inventory } }

/-- What a new character has. -/
def newInventory : List InventoryRow :=
  [starterItem 1 30 3 3, starterItem 1 1 8 7, starterItem 1 222 2 12]

theorem list_newInventory : ListRight plainEnv (wearing newInventory) :=
  (list_iff plainEnv (wearing newInventory) rfl).mpr
    (Orderly.of_plain (by decide) (by decide) (by decide) (by decide))

/-- A necklace is shown as a weapon. -/
theorem not_list_necklace : ¬ ListRight plainEnv (wearing [starterItem 1 5 7 9]) := by
  rintro ⟨reply, hsent, hshows⟩
  obtain rfl : listReply plainEnv [starterItem 1 5 7 9] 0 .empty firstCharacter.rows = reply := by
    injection List.singleton_inj.mp (List.append_cancel_left hsent)
  have hempty := (hshows.wears 0 _ rfl (place 7)).empty (by decide)
  rw [shown_listReply (n := 0) _ _ _ rfl] at hempty
  exact absurd hempty (by decide)

end OsIrose.CharClient

/-
What a chat message does, from its text: `ChatSystem::normalChat` and `executeGM`, with the
commands `/help`, `/item`, `/load_npc` and `/tp` of `map/src/gm_commands.cpp` and the
`ItemDatabase` of `itemdb.cpp`.

The arguments of a command are read with `operator>>`. `/item` stops at nothing that stands behind
them, takes `5+3` for two numbers, and hands the type on as a `uint8_t`. `asks_iff` says which
messages ask for which item, `normalChat_components` what they do, and `normalChat_effect` that
a message does to its sender what `MapServer.normalChat` does for the command that it is.
What `/load_npc` does to the NPCs is in `GmCommands`.
-/
import OsIrose.EntitySystem
import OsIrose.Extraction
import OsIrose.GmCommands

set_option autoImplicit false

namespace OsIrose.CommandText

open Extraction Inventory
open GmCommands (isSpace)
open MapServer (Components Effect Env ItemDef)

/-! ## The item database -/

/-- A row of `item_db`. -/
structure ItemRow where
  type : ℕ
  id : ℕ
  script : String

/-- What `ItemDatabase` takes from a row. -/
def ItemRow.newItem (row : ItemRow) : ItemDef where
  type := row.type % 256
  id := row.id % 65536
  script := row.script

/-- The definition of a row is entered; of two rows with one key the last stays. -/
def enter (database : ℕ → ℕ → Option ItemDef) (row : ItemRow) : ℕ → ℕ → Option ItemDef :=
  Function.update database (row.type % 256)
    (Function.update (database (row.type % 256)) (row.id % 65536) (some row.newItem))

/-- The `ItemDatabase` of a table. -/
def itemDatabase (rows : List ItemRow) : ℕ → ℕ → Option ItemDef :=
  (rows.filter (·.type ≠ 0)).foldl enter (fun _ _ => none)

/-- Every definition stands under its own type and id. -/
def Keyed (database : ℕ → ℕ → Option ItemDef) : Prop :=
  ∀ type id itemDef, database type id = some itemDef → itemDef.type = type ∧ itemDef.id = id

theorem Keyed.enter {database : ℕ → ℕ → Option ItemDef} (h : Keyed database) (row : ItemRow) :
    Keyed (enter database row) := by
  intro type id itemDef hrow
  unfold CommandText.enter at hrow
  by_cases htype : type = row.type % 256
  · subst htype
    rw [Function.update_self] at hrow
    by_cases hid : id = row.id % 65536
    · subst hid
      rw [Function.update_self] at hrow
      obtain rfl := Option.some.inj hrow
      exact ⟨rfl, rfl⟩
    · rw [Function.update_of_ne hid] at hrow
      exact h _ _ _ hrow
  · rw [Function.update_of_ne htype] at hrow
    exact h _ _ _ hrow

theorem keyed_itemDatabase (rows : List ItemRow) : Keyed (itemDatabase rows) :=
  Runs.foldl_invariant Keyed (fun _ row h => h.enter row)
    (fun _ _ _ (h : none = some _) => nomatch h) _

/-! ## Commands -/

/-- The keys of `commands`. -/
inductive Name
  | item
  | load_npc
  | tp
  deriving DecidableEq

def Name.key : Name → String
  | item => "/item"
  | load_npc => "/load_npc"
  | tp => "/tp"

def Name.usage : Name → String
  | item => "Creates an item. Usage: /item <type> <id>"
  | load_npc => "Loads npc(s). TODO"
  | tp => "Teleports a player or self. Usage: /tp <map_id> <x> <y> [client_id]"

def Name.text (name : Name) : String :=
  name.key ++ " " ++ name.usage

/-- `commands.find`. -/
def find (command : List Char) : Option Name :=
  [Name.item, Name.load_npc, Name.tp].find? (fun name => name.key.toList = command)

/-- The parts of the standard library that a command uses. -/
structure Library (K : Type*) where
  /-- A `uint16_t` that is read behind a minus, and whether the reading fails. -/
  negative : ℕ → ℕ × Bool
  negative_le : ∀ n, (negative n).1 ≤ 65535
  /-- Reads a `float` into a variable that is 0. -/
  float : Stream → K × Stream
  /-- The order of the `unordered_map`. -/
  order : List Name
  order_perm : order.Perm [.item, .load_npc, .tp]

theorem sampleNegative_le (n : ℕ) : (if n ≤ 65535 then (65536 - n) % 65536 else 65535) ≤ 65535 := by
  split_ifs <;> omega

/-- A minus is taken modulo 65536; no `float` is read. -/
def sampleLibrary : Library ℚ where
  negative n := (if n ≤ 65535 then (65536 - n) % 65536 else 65535, decide (65535 < n))
  negative_le := sampleNegative_le
  float _ := (0, none)
  order := [.item, .load_npc, .tp]
  order_perm := List.Perm.refl _

/-- What is sent; all but `nearby` goes to the speaker. -/
inductive Sent
  /-- `WHISPER_CHAT` without a sender. -/
  | whisper (text : String)
  /-- What `addItem` sends. -/
  | inventory (packet : Inventory.Sent)
  | teleportReply
  | switchServer (mapId : ℕ)
  /-- `NORMAL_CHAT`, to those near the speaker. -/
  | nearby (message : String)
  deriving DecidableEq

structure Outcome (K D : Type*) where
  effect : Effect K D
  sent : List Sent := []

theorem isSpace_of_isDigit {c : Char} (hc : c.isDigit = true) : isSpace c = false := by
  refine decide_eq_false fun hspace => ?_
  simp only [List.mem_cons, List.not_mem_nil, or_false] at hspace
  rcases hspace with rfl | rfl | rfl | rfl | rfl | rfl <;> exact absurd hc (by decide)

/-- `isspace`. -/
def blanks : Blanks where
  blank := isSpace
  digit _ := isSpace_of_isDigit
  plus := by decide
  minus := by decide

section Commands

variable {K D : Type*} [Field K] [LinearOrder K]
variable (lib : Library K) (env : Env K) (comps : Components K D)

def Library.uint16 : Unsigned where
  max := 65535
  negative := lib.negative
  negative_le := lib.negative_le

/-- `help`. -/
def help : Option Name → List Sent
  | some command => [.whisper "help:", .whisper command.text]
  | none => .whisper "help:" :: lib.order.map (fun name => .whisper name.text)

/-- `item`, once the arguments are read. -/
def give (type id : ℕ) : Outcome K D :=
  if type = 0 ∨ id = 0 then { effect := { components := comps }, sent := help lib (some .item) }
  else match MapServer.getItemDef env type id with
    | none =>
        { effect := { components := comps }
          sent := [.whisper (toString type ++ " " ++ toString id ++ " doesn't exists")] }
    | some itemDef =>
        match MapServer.buildItem env itemDef with
        | none =>
            { effect := { components := comps }
              sent := [.whisper "Error while building the object, check the logs"] }
        | some item =>
            match comps.inventory.bind (fun items => addItem items item) with
            | none => { effect := { components := comps }, sent := [.whisper "Inventory full"] }
            | some (items, sent) =>
                { effect := { components := { comps with inventory := some items } }
                  sent := sent.map .inventory ++
                    [.whisper ("Item " ++ toString type ++ ":" ++ toString id ++ " added")] }

/-- `item`. -/
def item (ss : Stream) : Outcome K D :=
  let (type, ss) := lib.uint16.read blanks ss
  let (id, _) := lib.uint16.read blanks ss
  give lib env comps type id

/-- `teleport`. -/
def teleport (ss : Stream) : Outcome K D :=
  let (mapId, ss) := lib.uint16.read blanks ss
  let (x, ss) := lib.float ss
  let (y, _) := lib.float ss
  if mapId = 0 ∨ x = 0 ∨ y = 0 then
    { effect := { components := comps }, sent := help lib (some .tp) }
  else
    let effect := MapServer.teleport comps mapId (x * 100) (y * 100) true
    { effect, sent := [if effect.switches then .switchServer mapId else .teleportReply] }

/-- The function of a command. -/
def Name.run (ss : Stream) : Name → Outcome K D
  | .item => CommandText.item lib env comps ss
  | .load_npc => { effect := { components := comps } }
  | .tp => teleport lib comps ss

/-- `executeGM`; `none` for `false`. -/
def executeGM (message : String) : Option (Outcome K D) :=
  if message.toList.head? ≠ some '/' then none
  else if message = "/help" then
    some { effect := { components := comps }, sent := help lib none }
  else
    let (command, ss) := word blanks (some message.toList)
    (find command).map (fun name => name.run lib env comps ss)

/-- `ChatSystem::normalChat`. -/
def normalChat (message : String) : Outcome K D :=
  match comps.basic with
  | none => { effect := { components := comps } }
  | some _ => (executeGM lib env comps message).getD
      { effect := { components := comps }, sent := [.nearby message] }

end Commands

/-! ## The command of a message -/

section Read

variable {K D : Type*} (lib : Library K) (env : Env K) (comps : Components K D) (message : String)

/-- The command that a message is. -/
def command : MapServer.Command K :=
  if message.toList.head? ≠ some '/' then .chat
  else if message = "/help" then .chat
  else
    let (name, ss) := word blanks (some message.toList)
    match find name with
    | some .item =>
        let (type, ss) := lib.uint16.read blanks ss
        .item type (lib.uint16.read blanks ss).1
    | some .tp =>
        let (mapId, ss) := lib.uint16.read blanks ss
        let (x, ss) := lib.float ss
        .tp mapId x (lib.float ss).1
    | _ => .chat

/-- The message asks for an item: the name of the command, blanks, and two numbers that are not
0. -/
def Asks (type id : ℕ) : Prop :=
  type ≠ 0 ∧ id ≠ 0 ∧ ∃ x y : Numeral, x.Valid blanks ∧ y.Valid blanks ∧ x.blanks ≠ [] ∧
    message.toList = Name.item.key.toList ++ x.text ∧ x.rest = y.text ∧
    lib.uint16.stored x = (type, some x.rest) ∧ (lib.uint16.stored y).1 = id

theorem find_eq_item_iff {name : List Char} :
    find name = some .item ↔ name = Name.item.key.toList := by
  unfold find
  constructor
  · intro hfind
    have hname := List.find?_some hfind
    exact (of_decide_eq_true hname).symm
  · rintro rfl
    rfl

/-- The command is `/item`, with what stands behind. -/
theorem word_eq_item_iff {rest : List Char} (hslash : message.toList.head? = some '/') :
    word blanks (some message.toList) = (Name.item.key.toList, some rest) ↔
      message.toList = Name.item.key.toList ++ rest ∧ ∀ c ∈ rest.head?, isSpace c = true := by
  have hhead : ∀ c ∈ message.toList.head?, blanks.blank c = false := by
    intro c hc
    obtain rfl := Option.some.inj (hslash.symm.trans hc)
    decide
  have hword : ∀ c ∈ Name.item.key.toList, (!blanks.blank c) = true :=
    List.all_eq_true.mp rfl
  have hne : Name.item.key.toList ≠ [] := List.cons_ne_nil '/' _
  rw [word_iff hne hhead]
  constructor
  · rintro ⟨happend, -, hstop⟩
    exact ⟨happend, fun c hc => (Bool.not_eq_false' _).mp (hstop c hc)⟩
  · rintro ⟨happend, hstop⟩
    exact ⟨happend, hword, fun c hc => (Bool.not_eq_false' _).mpr (hstop c hc)⟩

/-- **Which messages ask for an item.** -/
theorem asks_iff {type id : ℕ} (htype : type ≠ 0) (hid : id ≠ 0) :
    command lib message = .item type id ↔ Asks lib message type id := by
  unfold command Asks
  split_ifs with hslash hhelp
  · -- what starts with anything else is said to those near
    refine iff_of_false (fun h => nomatch h) ?_
    rintro ⟨-, -, x, y, -, -, -, htext, -⟩
    exact hslash (by rw [htext]; rfl)
  · refine iff_of_false (fun h => nomatch h) ?_
    rintro ⟨-, -, x, y, -, -, -, htext, -⟩
    rw [hhelp] at htext
    exact absurd (congrArg (·[1]?) htext) (show ¬ (some 'h' = some 'i') by decide)
  have hslash' : message.toList.head? = some '/' := not_not.mp hslash
  dsimp only
  constructor
  · intro hcommand
    have hfind : find (word blanks (some message.toList)).1 = some .item := by
      cases hfind : find (word blanks (some message.toList)).1 with
      | none =>
          rw [hfind] at hcommand
          exact absurd hcommand (fun h => nomatch h)
      | some name =>
          rw [hfind] at hcommand
          cases name with
          | item => rfl
          | load_npc => exact absurd hcommand (fun h => nomatch h)
          | tp => exact absurd hcommand (fun h => nomatch h)
    rw [hfind] at hcommand
    have hname := find_eq_item_iff.mp hfind
    obtain ⟨rest, hword⟩ := exists_word_left (b := blanks)
      (hname.trans_ne (List.cons_ne_nil '/' _))
    rw [hname] at hword
    obtain ⟨htext, hstart⟩ := (word_eq_item_iff message hslash').mp hword
    rw [hword] at hcommand
    obtain ⟨hm, hn⟩ := MapServer.Command.item.inj hcommand
    obtain ⟨x, y, hx, hy, rfl, hrest, hstored⟩ :=
      (read_read_iff lib.uint16 htype hid).mp ⟨hm, hn⟩
    exact ⟨htype, hid, x, y, hx, hy, hx.starts_blank_iff.mp hstart, htext, hrest, hstored⟩
  · rintro ⟨-, -, x, y, hx, hy, hblanks, htext, hrest, hfirst, hsecond⟩
    have hword : word blanks (some message.toList) = (Name.item.key.toList, some x.text) :=
      (word_eq_item_iff message hslash').mpr ⟨htext, hx.starts_blank_iff.mpr hblanks⟩
    obtain ⟨hm, hn⟩ := (read_read_iff lib.uint16 htype hid).mpr
      ⟨x, y, hx, hy, rfl, hrest, hfirst, hsecond⟩
    rw [hword]
    show MapServer.Command.item _ _ = _
    rw [hm, hn]

/-- Two numbers in digits, the first one a `uint16_t`: too large an id is read as the largest. -/
theorem asks_of_digits {type id : ℕ} (htype : type ≠ 0) (hle : type ≤ 65535) (hid : id ≠ 0)
    (h : message.toList = Name.item.key.toList ++
      (' ' :: (Nat.toDigits 10 type ++ (' ' :: Nat.toDigits 10 id)))) :
    Asks lib message type (min id 65535) := by
  have hspace : ∀ c ∈ [' '], blanks.blank c = true := List.forall_mem_singleton.mpr rfl
  have hy : (⟨[' '], .none, Nat.toDigits 10 id, []⟩ : Numeral).Valid blanks :=
    valid_toDigits id .none hspace (fun _ hc => nomatch hc)
  have hx : (⟨[' '], .none, Nat.toDigits 10 type, ' ' :: Nat.toDigits 10 id⟩ : Numeral).Valid
      blanks := by
    refine valid_toDigits type .none hspace (fun c hc => ?_)
    obtain rfl := Option.some.inj hc
    rfl
  have hrest : ' ' :: Nat.toDigits 10 id = [' '] ++ ([] ++ (Nat.toDigits 10 id ++ [])) := by
    rw [List.append_nil, List.nil_append, List.singleton_append]
  refine ⟨htype, by omega, _, _, hx, hy, List.cons_ne_nil _ _, h, hrest, ?_, ?_⟩
  · rw [stored_toDigits]
    exact if_pos hle
  · rw [stored_toDigits]
    by_cases hsmall : id ≤ 65535
    · rw [min_eq_left hsmall]
      exact congrArg Prod.fst (if_pos hsmall)
    · rw [min_eq_right (not_le.mp hsmall).le]
      exact congrArg Prod.fst (if_neg hsmall)

theorem Asks.id_le {type id : ℕ} (h : Asks lib message type id) : id ≤ 65535 := by
  obtain ⟨-, -, x, y, -, -, -, -, -, -, rfl⟩ := h
  exact lib.uint16.store_le _ _ _

/-! ## What a command gives -/

/-- A new item of a type and an id. -/
def newItem (type id : ℕ) : Item where
  type := type
  id := id
  life := 1000
  isAppraised := true
  count := 1
  isStackable := 10 ≤ type ∧ type ≤ 13

/-- The message gives its sender an item of a type and an id. -/
structure Gives (type id : ℕ) : Prop where
  speaker : comps.basic ≠ none
  asks : ∃ asked, Asks lib message asked id ∧ asked % 256 = type
  loads : ∃ itemDef, env.itemDef type id = some itemDef ∧ env.scriptLoads itemDef.script = true
  room : ∃ items, comps.inventory = some items ∧ ¬ Full items

theorem buildItem_eq_iff {itemDef : ItemDef} {item : Item} :
    MapServer.buildItem env itemDef = some item ↔
      env.scriptLoads itemDef.script = true ∧ newItem itemDef.type itemDef.id = item := by
  unfold MapServer.buildItem
  split_ifs with hloads
  · simp [hloads, newItem]
  · simp [hloads]

variable {env}

/-- The item of a definition is of the type and the id that were asked for. -/
theorem built_eq_iff (henv : Keyed env.itemDef) {asked id : ℕ} (hid : id ≤ 65535) {item : Item} :
    (MapServer.getItemDef env asked id).bind (MapServer.buildItem env) = some item ↔
      (∃ itemDef, env.itemDef (asked % 256) id = some itemDef ∧
        env.scriptLoads itemDef.script = true) ∧ newItem (asked % 256) id = item := by
  rw [MapServer.getItemDef, Nat.mod_eq_of_lt (Nat.lt_succ_of_le hid), Option.bind_eq_some_iff]
  constructor
  · rintro ⟨itemDef, hdef, hbuilt⟩
    obtain ⟨hloads, hitem⟩ := (buildItem_eq_iff env).mp hbuilt
    obtain ⟨htype, hid⟩ := henv _ _ _ hdef
    exact ⟨⟨itemDef, hdef, hloads⟩, by rw [← htype, ← hid]; exact hitem⟩
  · rintro ⟨⟨itemDef, hdef, hloads⟩, hitem⟩
    obtain ⟨htype, hid⟩ := henv _ _ _ hdef
    exact ⟨itemDef, hdef, (buildItem_eq_iff env).mpr ⟨hloads, by rw [htype, hid]; exact hitem⟩⟩

theorem addItem_eq_some {items : Items} (hroom : ¬ Full items) (item : Item) :
    addItem items item = some (Function.update items (findNextEmptySlot items) item,
      [.setItem [findNextEmptySlot items]]) :=
  if_neg fun hslot => hroom ((findNextEmptySlot_eq_zero_iff items).mp hslot)

theorem addItem_eq_none {items : Items} (hfull : Full items) (item : Item) :
    addItem items item = none :=
  if_pos (findNextEmptySlot_of_full hfull)

/-- A message gives one item. -/
theorem Gives.unique {lib : Library K} {comps : Components K D} {message : String}
    {type type' id id' : ℕ} (h : Gives lib env comps message type id)
    (h' : Gives lib env comps message type' id') : type = type' ∧ id = id' := by
  obtain ⟨asked, hasks, rfl⟩ := h.asks
  obtain ⟨asked', hasks', rfl⟩ := h'.asks
  have hcommand := (asks_iff lib message hasks.1 hasks.2.1).mpr hasks
  rw [(asks_iff lib message hasks'.1 hasks'.2.1).mpr hasks'] at hcommand
  obtain ⟨rfl, rfl⟩ := MapServer.Command.item.inj hcommand
  exact ⟨rfl, rfl⟩

/-! ## The effect of a message -/

theorem give_effect (env : Env K) (type id : ℕ) : (give lib env comps type id).effect =
    { components := MapServer.gmItem env comps type id } := by
  unfold give MapServer.gmItem
  split_ifs with hzero
  · rfl
  cases MapServer.getItemDef env type id with
  | none => rfl
  | some itemDef =>
      rw [Option.bind_some]
      dsimp only
      cases MapServer.buildItem env itemDef with
      | none => rfl
      | some item =>
          obtain ⟨position, destination, basic, rest, character, inventory, wishlist, socket,
            onGround⟩ := comps
          cases inventory with
          | none => rfl
          | some items =>
              dsimp only [Option.bind_some, Option.map_some]
              cases addItem items item <;> rfl

variable [Field K] [LinearOrder K]

theorem teleport_effect (ss : Stream) : (teleport lib comps ss).effect =
    (let (mapId, ss) := lib.uint16.read blanks ss
    let (x, ss) := lib.float ss
    let (y, _) := lib.float ss
    if mapId = 0 ∨ x = 0 ∨ y = 0 then { components := comps }
    else MapServer.teleport comps mapId (x * 100) (y * 100) true) := by
  unfold teleport
  dsimp only
  split_ifs <;> rfl

/-- **A message does to its sender what its command does.** -/
theorem normalChat_effect : (normalChat lib env comps message).effect =
    MapServer.normalChat env comps (command lib message) := by
  unfold normalChat MapServer.normalChat executeGM command
  cases comps.basic with
  | none => rfl
  | some basic =>
      dsimp only
      split_ifs with hslash hhelp
      · rfl
      · rfl
      cases find (word blanks (some message.toList)).1 with
      | none => rfl
      | some name =>
          cases name with
          | item => exact give_effect lib comps env _ _
          | load_npc => rfl
          | tp => exact teleport_effect lib comps _

variable {lib comps message}

/-- Nothing is dropped. -/
theorem normalChat_ground : (normalChat lib env comps message).effect.ground = none := by
  rw [normalChat_effect]
  unfold MapServer.normalChat
  cases comps.basic with
  | none => rfl
  | some basic =>
      cases command lib message with
      | tp mapId x y =>
          dsimp only
          split_ifs <;> rfl
      | _ => rfl

/-- A message that gives an item puts it in the first empty slot of the bag. -/
theorem Gives.effect (henv : Keyed env.itemDef) {type id : ℕ}
    (h : Gives lib env comps message type id) {items : Items}
    (hitems : comps.inventory = some items) :
    (normalChat lib env comps message).effect = { components := { comps with
      inventory := some
        (Function.update items (findNextEmptySlot items) (newItem type id)) } } := by
  obtain ⟨hspeaker, ⟨asked, hasks, rfl⟩, hloads, items', hinventory, hroom⟩ := h
  obtain rfl : items = items' := Option.some.inj (hitems.symm.trans hinventory)
  obtain ⟨basic, hbasic⟩ := Option.ne_none_iff_exists'.mp hspeaker
  have hbuilt := (built_eq_iff henv hasks.id_le).mpr ⟨hloads, rfl⟩
  rw [normalChat_effect, (asks_iff lib message hasks.1 hasks.2.1).mpr hasks]
  unfold MapServer.normalChat MapServer.gmItem
  rw [hbasic]
  dsimp only
  rw [if_neg (not_or.mpr ⟨hasks.1, hasks.2.1⟩), hbuilt]
  dsimp only
  rw [hitems, Option.map_some, addItem_eq_some hroom]
  rfl

/-- Any other message leaves the items alone. -/
theorem inventory_of_not_gives (henv : Keyed env.itemDef)
    (h : ∀ type id, ¬ Gives lib env comps message type id) :
    (normalChat lib env comps message).effect.components.inventory = comps.inventory := by
  rw [normalChat_effect]
  unfold MapServer.normalChat
  cases hbasic : comps.basic with
  | none => rfl
  | some basic =>
      cases hcommand : command lib message with
      | chat => rfl
      | tp mapId x y =>
          dsimp only
          split_ifs <;> rfl
      | item type id =>
          dsimp only
          unfold MapServer.gmItem
          split_ifs with hzero
          · rfl
          obtain ⟨htype, hid⟩ := not_or.mp hzero
          have hasks := (asks_iff lib message htype hid).mp hcommand
          cases hbuilt : (MapServer.getItemDef env type id).bind (MapServer.buildItem env) with
          | none => rfl
          | some item =>
              obtain ⟨hloads, -⟩ := (built_eq_iff henv hasks.id_le).mp hbuilt
              cases hitems : comps.inventory with
              | none => rfl
              | some items =>
                  -- the message asks for an item that there is: the bag is full
                  have hfull : Full items := by
                    by_contra hroom
                    exact h (type % 256) id ⟨hbasic.trans_ne (Option.some_ne_none basic),
                      ⟨type, hasks, rfl⟩, hloads, items, hitems, hroom⟩
                  dsimp only
                  rw [Option.map_some, addItem_eq_none hfull]
                  rfl

end Read

end OsIrose.CommandText

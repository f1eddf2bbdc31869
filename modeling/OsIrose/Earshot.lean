/-
Who hears a message: `ChatSystem::normalChat` and what it makes `CRoseServer::SendPacket` do.

A command is answered to the speaker and is heard by nobody. Anything else is sent to those near
the speaker, by grid cells of 1000 by 1000. In coordinates, that is everybody within 1000 and
nobody at 2000 or more (`earshot`).
-/
import OsIrose.Broadcast
import OsIrose.CommandText
import Mathlib.Algebra.Order.Floor.Semiring
import Mathlib.Data.Rat.Floor
import Mathlib.Tactic.Linarith

set_option autoImplicit false

namespace OsIrose.Earshot

open Broadcast CommandText
open MapServer (Components Entity Env World)
open Movement (Cell Position)

/-! ## Cells and coordinates -/

section Cells

variable {K : Type*} [Field K] [LinearOrder K] [IsStrictOrderedRing K] [FloorSemiring K]

/-- Numbers within 1 of each other have floors within 1 of each other. -/
theorem floor_near {a b : K} (ha : 0 ≤ a) (hb : 0 ≤ b) (h : |a - b| ≤ 1) :
    ((⌊a⌋₊ : ℤ) - ⌊b⌋₊).natAbs ≤ 1 := by
  obtain ⟨hlow, hhigh⟩ := abs_le.mp h
  have hab : ⌊a⌋₊ ≤ ⌊b⌋₊ + 1 := by
    rw [← Nat.floor_add_one hb]
    exact Nat.floor_mono (by linarith)
  have hba : ⌊b⌋₊ ≤ ⌊a⌋₊ + 1 := by
    rw [← Nat.floor_add_one ha]
    exact Nat.floor_mono (by linarith)
  omega

theorem near_of_floor {a b : K} (ha : 0 ≤ a) (hb : 0 ≤ b)
    (h : ((⌊a⌋₊ : ℤ) - ⌊b⌋₊).natAbs ≤ 1) : |a - b| < 2 := by
  have hab : (⌊a⌋₊ : K) ≤ ⌊b⌋₊ + 1 := by
    exact_mod_cast (by omega : ⌊a⌋₊ ≤ ⌊b⌋₊ + 1)
  have hba : (⌊b⌋₊ : K) ≤ ⌊a⌋₊ + 1 := by
    exact_mod_cast (by omega : ⌊b⌋₊ ≤ ⌊a⌋₊ + 1)
  have hfloorA := Nat.floor_le ha
  have hfloorB := Nat.floor_le hb
  have hnextA := Nat.lt_floor_add_one a
  have hnextB := Nat.lt_floor_add_one b
  rw [abs_lt]
  constructor <;> linarith

/-- The cells of the position fit a `uint16_t`. -/
structure InGrid (pos : Position K) : Prop where
  x_nonneg : 0 ≤ pos.x
  x_lt : pos.x / 1000 < 65536
  y_nonneg : 0 ≤ pos.y
  y_lt : pos.y / 1000 < 65536

/-- The two positions are less than a distance apart, or that far, in both coordinates. -/
def Within (d : K) (pos pos' : Position K) : Prop :=
  |pos.x - pos'.x| ≤ d ∧ |pos.y - pos'.y| ≤ d

def Under (d : K) (pos pos' : Position K) : Prop :=
  |pos.x - pos'.x| < d ∧ |pos.y - pos'.y| < d

theorem InGrid.cell_val {pos : Position K} (h : InGrid pos) :
    pos.cell.1.val = ⌊pos.x / 1000⌋₊ ∧ pos.cell.2.val = ⌊pos.y / 1000⌋₊ := by
  have hfits : ∀ a : K, a < 65536 → ⌊a⌋₊ < 65536 := by
    intro a ha
    rw [Nat.floor_lt' (by decide)]
    exact_mod_cast ha
  exact ⟨Nat.mod_eq_of_lt (hfits _ h.x_lt), Nat.mod_eq_of_lt (hfits _ h.y_lt)⟩

theorem adjacent_iff {pos pos' : Position K} (h : InGrid pos) (h' : InGrid pos') :
    adjacent pos.cell pos'.cell = true ↔
      ((⌊pos.x / 1000⌋₊ : ℤ) - ⌊pos'.x / 1000⌋₊).natAbs ≤ 1 ∧
        ((⌊pos.y / 1000⌋₊ : ℤ) - ⌊pos'.y / 1000⌋₊).natAbs ≤ 1 := by
  unfold adjacent
  rw [decide_eq_true_iff, h.cell_val.1, h.cell_val.2, h'.cell_val.1, h'.cell_val.2]

theorem thousand_pos : (0 : K) < 1000 := by norm_num

theorem abs_div_sub (a b : K) : |a / 1000 - b / 1000| = |a - b| / 1000 := by
  have habs : |(1000 : K)| = 1000 := abs_of_pos thousand_pos
  rw [← sub_div, abs_div, habs]

/-- What is within 1000 is in an adjacent cell. -/
theorem adjacent_of_within {pos pos' : Position K} (h : InGrid pos) (h' : InGrid pos')
    (hwithin : Within 1000 pos pos') : adjacent pos.cell pos'.cell = true := by
  have hscaled : ∀ a b : K, |a - b| ≤ 1000 → |a / 1000 - b / 1000| ≤ 1 := by
    intro a b hab
    rw [abs_div_sub, div_le_one thousand_pos]
    exact hab
  have hle : (0 : K) ≤ 1000 := thousand_pos.le
  rw [adjacent_iff h h']
  exact ⟨floor_near (div_nonneg h.x_nonneg hle) (div_nonneg h'.x_nonneg hle)
      (hscaled _ _ hwithin.1),
    floor_near (div_nonneg h.y_nonneg hle) (div_nonneg h'.y_nonneg hle) (hscaled _ _ hwithin.2)⟩

/-- Adjacent cells are less than 2000 across. -/
theorem under_of_adjacent {pos pos' : Position K} (h : InGrid pos) (h' : InGrid pos')
    (hadjacent : adjacent pos.cell pos'.cell = true) : Under 2000 pos pos' := by
  have hscaled : ∀ a b : K, |a / 1000 - b / 1000| < 2 → |a - b| < 2000 := by
    intro a b hab
    rw [abs_div_sub, div_lt_iff₀ thousand_pos] at hab
    calc |a - b| < 2 * 1000 := hab
      _ = 2000 := by norm_num
  have hle : (0 : K) ≤ 1000 := thousand_pos.le
  obtain ⟨hx, hy⟩ := (adjacent_iff h h').mp hadjacent
  exact ⟨hscaled _ _ (near_of_floor (div_nonneg h.x_nonneg hle) (div_nonneg h'.x_nonneg hle) hx),
    hscaled _ _ (near_of_floor (div_nonneg h.y_nonneg hle) (div_nonneg h'.y_nonneg hle) hy)⟩

end Cells

/-! ## Commands are not shown -/

section Commands

/-- The message is a command. -/
def IsCommand (message : String) : Prop :=
  message.toList.head? = some '/' ∧
    (message = "/help" ∨ (find (GmCommands.firstWord message).toList).isSome)

instance (message : String) : Decidable (IsCommand message) :=
  inferInstanceAs (Decidable (_ ∧ _))

/-- What is sent to those near the speaker. -/
def shown : Sent → Option String
  | .nearby message => some message
  | _ => none

variable {K D : Type} (lib : Library K) (env : Env K) (comps : Components K D) (message : String)

theorem firstWord_toList :
    (Extraction.word blanks (some message.toList)).1 = (GmCommands.firstWord message).toList := by
  rw [Extraction.word_fst]
  exact (String.toList_ofList).symm

theorem shown_help (name : Option Name) : (help lib name).filterMap shown = [] := by
  cases name with
  | some name => rfl
  | none =>
      refine List.filterMap_eq_nil_iff.mpr fun sent hsent => ?_
      obtain rfl | hsent := List.mem_cons.mp hsent
      · rfl
      · obtain ⟨name, -, rfl⟩ := List.mem_map.mp hsent
        rfl

theorem shown_give (type id : ℕ) : (give lib env comps type id).sent.filterMap shown = [] := by
  unfold give
  split_ifs
  · exact shown_help lib (some .item)
  cases MapServer.getItemDef env type id with
  | none => rfl
  | some itemDef =>
      dsimp only
      cases MapServer.buildItem env itemDef with
      | none => rfl
      | some item =>
          dsimp only
          cases comps.inventory.bind (fun items => Inventory.addItem items item) with
          | none => rfl
          | some result =>
              dsimp only
              rw [List.filterMap_append, List.filterMap_map]
              exact (List.append_nil _).trans (List.filterMap_eq_nil_iff.mpr fun _ _ => rfl)

variable [Field K] [LinearOrder K]

theorem shown_teleport (ss : Extraction.Stream) :
    (teleport lib comps ss).sent.filterMap shown = [] := by
  unfold teleport
  dsimp only
  split_ifs
  · exact shown_help lib (some .tp)
  · rfl
  · rfl

theorem shown_run (ss : Extraction.Stream) (name : Name) :
    (name.run lib env comps ss).sent.filterMap shown = [] := by
  cases name with
  | item => exact shown_give lib env comps _ _
  | load_npc => rfl
  | tp => exact shown_teleport lib comps ss

/-- What is no command is shown as it is. -/
theorem shown_normalChat (hbasic : comps.basic ≠ none) :
    (normalChat lib env comps message).sent.filterMap shown =
      if IsCommand message then [] else [message] := by
  obtain ⟨basic, hbasic⟩ := Option.ne_none_iff_exists'.mp hbasic
  unfold normalChat executeGM
  rw [hbasic]
  dsimp only
  by_cases hslash : message.toList.head? = some '/'
  · rw [if_neg (not_not.mpr hslash)]
    by_cases hhelp : message = "/help"
    · have hcommand : IsCommand message := ⟨hslash, .inl hhelp⟩
      rw [if_pos hhelp, if_pos hcommand]
      exact shown_help lib none
    rw [if_neg hhelp]
    cases hfind : find (Extraction.word blanks (some message.toList)).1 with
    | none =>
        have hcommand : ¬ IsCommand message := by
          rintro ⟨-, hhelp' | hname⟩
          · exact hhelp hhelp'
          · rw [← firstWord_toList, hfind] at hname
            exact Bool.false_ne_true hname
        rw [if_neg hcommand]
        rfl
    | some name =>
        have hcommand : IsCommand message := by
          refine ⟨hslash, .inr ?_⟩
          rw [← firstWord_toList, hfind]
          rfl
        rw [if_pos hcommand]
        exact shown_run lib env comps _ name
  · have hcommand : ¬ IsCommand message := fun h => hslash h.1
    rw [if_pos hslash, if_neg hcommand]
    rfl

end Commands

/-! ## Who hears -/

section Say

variable {K D : Type} [Field K] [LinearOrder K] [FloorSemiring K]
variable (w : World K D) (u : Unspecified K) (list : ClientList)
variable (lib : Library K) (env : Env K)

/-- `ChatSystem::normalChat` of a client, with what it sends to others. -/
def say (client : ℕ) (message : String) : SendM Unit :=
  match componentsOf w (w.clients client).entity with
  | none => pure ()
  | some comps => ((normalChat lib env comps message).sent.filterMap shown).forM fun _ =>
      sendPacket w u list client .NEARBY

/-- Where the entity of a client is. -/
def position (client : ℕ) : Option (Position K) :=
  (componentsOf w (w.clients client).entity).bind Components.position

variable {w u list}

/-- A broadcast that only looks at valid entities goes to the clients named. -/
theorem sent_sendPacket (sender : ℕ)
    (hvalid : ∀ c ∈ list.clients, Valid w (w.clients c).entity) :
    ∃ p : ℕ → Bool, (∀ c, p c = true ↔ OnMap w c ∧ Near w c sender) ∧
      ((sendPacket w u list sender .NEARBY).run {}).2.sent = list.clients.filter p := by
  have hlooked : ∀ c ∈ list.clients, Looked sender .NEARBY c → Valid w (w.clients c).entity :=
    fun c hc _ => hvalid c hc
  obtain ⟨p, hp, hsent⟩ := flatMap_sends (u := u) hlooked
  refine ⟨p, hp, ?_⟩
  rw [logs_sendPacket w u list sender .NEARBY {}]
  exact hsent

theorem say_eq {sender : ℕ} {comps : Components K D}
    (hcomps : componentsOf w (w.clients sender).entity = some comps) (hbasic : comps.basic ≠ none)
    (message : String) : ((say w u list lib env sender message).run {}).2.sent =
      if IsCommand message then [] else ((sendPacket w u list sender .NEARBY).run {}).2.sent := by
  unfold say
  rw [hcomps]
  dsimp only
  rw [shown_normalChat lib env comps message hbasic]
  split_ifs <;> rfl

theorem near_iff {c c' : ℕ} {pos pos' : Position K} (hpos : position w c = some pos)
    (hpos' : position w c' = some pos') : Near w c c' ↔ adjacent pos.cell pos'.cell = true := by
  obtain ⟨comps, hcomps, hposition⟩ := Option.bind_eq_some_iff.mp hpos
  obtain ⟨comps', hcomps', hposition'⟩ := Option.bind_eq_some_iff.mp hpos'
  have hcell : cell comps = pos.cell ∧ cell comps' = pos'.cell := by
    unfold cell
    rw [hposition, hposition']
    exact ⟨rfl, rfl⟩
  unfold Near
  rw [hcomps, hcomps', ← hcell.1, ← hcell.2]
  constructor
  · rintro ⟨_, _, h₁, h₂, hadjacent⟩
    obtain rfl := Option.some.inj h₁
    obtain rfl := Option.some.inj h₂
    exact hadjacent
  · exact fun hadjacent => ⟨comps, comps', rfl, rfl, hadjacent⟩

/-- Those who were sent what a client said. -/
structure Heard (w : World K D) (list : ClientList) (sender : ℕ) (sent : List ℕ) : Prop where
  /-- Everybody on the map within 1000, once. -/
  within : ∀ c ∈ list.clients, OnMap w c → ∀ pos pos', position w c = some pos →
    position w sender = some pos' → InGrid pos → InGrid pos' → Within 1000 pos pos' →
    sent.count c = 1
  /-- Nobody at 2000 or more, and nobody twice. -/
  under : ∀ c ∈ sent, sent.count c = 1 ∧ c ∈ list.clients ∧ OnMap w c ∧
    ∀ pos pos', position w c = some pos → position w sender = some pos' → InGrid pos →
      InGrid pos' → Under 2000 pos pos'

/-- **Who hears a message**: nobody, if it is a command. -/
theorem earshot [IsStrictOrderedRing K]
    (hvalid : ∀ c ∈ list.clients, Valid w (w.clients c).entity) {sender : ℕ}
    {comps : Components K D} (hcomps : componentsOf w (w.clients sender).entity = some comps)
    (hbasic : comps.basic ≠ none) (message : String) :
    (IsCommand message → ((say w u list lib env sender message).run {}).2.sent = []) ∧
      (¬ IsCommand message →
        Heard w list sender ((say w u list lib env sender message).run {}).2.sent) := by
  rw [say_eq lib env hcomps hbasic]
  refine ⟨fun hcommand => if_pos hcommand, fun hcommand => ?_⟩
  rw [if_neg hcommand]
  obtain ⟨p, hp, hsent⟩ := sent_sendPacket (u := u) sender hvalid
  rw [hsent]
  have hcount : ∀ c ∈ list.clients.filter p, (list.clients.filter p).count c = 1 :=
    fun c hc => List.count_eq_one_of_mem (list.nodup.filter p) hc
  constructor
  · intro c hc hmap pos pos' hpos hpos' hgrid hgrid' hwithin
    have hnear : Near w c sender :=
      (near_iff hpos hpos').mpr (adjacent_of_within hgrid hgrid' hwithin)
    exact hcount c (List.mem_filter.mpr ⟨hc, (hp c).mpr ⟨hmap, hnear⟩⟩)
  · intro c hc
    obtain ⟨hmem, hpc⟩ := List.mem_filter.mp hc
    obtain ⟨hmap, hnear⟩ := (hp c).mp hpc
    refine ⟨hcount c hc, hmem, hmap, fun pos pos' hpos hpos' hgrid hgrid' => ?_⟩
    exact under_of_adjacent hgrid hgrid' ((near_iff hpos hpos').mp hnear)

end Say

/-- The client that is on the map. -/
def onlyOne : ClientList where
  clients := [0]
  nodup := by decide

theorem inGrid_origin : InGrid (⟨0, 0, 1⟩ : Position ℚ) := by
  constructor <;> norm_num

/-- A client hears what it says itself. -/
theorem earshot_sample : ((say MapServer.onMapOne nothing onlyOne sampleLibrary
    MapServer.World.sampleEnv 0 "hello").run {}).2.sent.count 0 = 1 := by
  obtain ⟨comps, hcomps⟩ := Option.isSome_iff_exists.mp
    (show Valid MapServer.onMapOne (MapServer.onMapOne.clients 0).entity from by decide)
  have hbasic : (componentsOf MapServer.onMapOne (MapServer.onMapOne.clients 0).entity).bind
      Components.basic ≠ none := by
    decide
  have hpos : position MapServer.onMapOne 0 = some ⟨0, 0, 1⟩ := rfl
  have hmap : OnMap MapServer.onMapOne 0 :=
    (onMap_eq_true_iff (u := nothing) (by decide)).mp (by decide)
  have hwithin : Within 1000 (⟨0, 0, 1⟩ : Position ℚ) ⟨0, 0, 1⟩ := by
    constructor <;> norm_num
  rw [hcomps] at hbasic
  have hvalid : ∀ c ∈ onlyOne.clients,
      Valid MapServer.onMapOne (MapServer.onMapOne.clients c).entity := by
    decide
  have hheard := (earshot sampleLibrary MapServer.World.sampleEnv (u := nothing) hvalid hcomps
    hbasic "hello").2 (by decide)
  exact hheard.within 0 List.mem_cons_self hmap _ _ hpos hpos inGrid_origin inGrid_origin hwithin

end OsIrose.Earshot

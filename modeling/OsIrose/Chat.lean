/-
Who hears what is whispered, or said to a party: `map/src/systems/chatsystem.cpp`.

The entity that speaks, those that hear it and the name it goes by are looked up at the moment
the packet is dispatched, while entities come and go. `heard` says that in every run of the map
server in which each character that is loaded is new (`Registry.loadsNew`), party chat is sent
once to each member of the speaker's party that has a client, a whisper to the one character of
that name, or else back to the speaker that there is none, and nothing to anybody else; and that
the id or the name that a line is signed with is the speaker's alone.
-/
import OsIrose.Community

set_option autoImplicit false

namespace OsIrose.Community

open Function Runs
open MapServer (Entity Id BasicInfo)
open Parties (Addr)
open Registry (Buckets)

/-- One step of the map server. -/
def Step (b : Buckets) (w : World) (e : Event) (w' : World) : Prop :=
  next b w e = w'

/-- A character that is loaded has a name and an id, and no other that is there has the same. -/
def loadsNew (b : Buckets) (w : World) : Event → Prop
  | .outside (.load _ o) _ => w.registry.loadsNew b (.loadCharacter o)
  | _ => True

/-- These clients are sent the line, once, and nobody is sent anything else. -/
def Told (w w' : World) (audience : ℕ → Prop) (line : Line) : Prop :=
  ∀ c, (audience c → w'.lines c = line :: w.lines c) ∧ (¬ audience c → w'.lines c = w.lines c)

namespace World

/-- The character that is there under this name, and with this id. -/
def Is (w : World) (e : Entity) (name : String) (id : Id) : Prop :=
  w.registry.who e = some (some (name, id))

/-- What is to hold of the chat packets that are dispatched next. -/
structure Hears (b : Buckets) (w : World) : Prop where
  /-- Party chat is for the members of the party. -/
  party : ∀ e name id c p message, w.Is e name id → w.getClient e = some c →
    w.parties.group e = some p →
    Told w (w.dispatch b e (.partyChat message))
      (fun c' => ∃ e', w.parties.group e' = some p ∧ w.getClient e' = some c') (.party id message)
  /-- Without a party it is for nobody. -/
  alone : ∀ e message, w.parties.group e = none →
    (w.dispatch b e (.partyChat message)).lines = w.lines
  /-- A whisper is for the character of that name. -/
  whisper : ∀ e name id c message, w.Is e name id → w.getClient e = some c →
    ∀ e' name' id' c', w.Is e' name' id' → w.getClient e' = some c' →
      Told w (w.dispatch b e (.whisperChat name' message)) (· = c') (.whisper name message)
  /-- Where there is none with a client, the speaker is told so. -/
  offline : ∀ e name id c message, w.Is e name id → w.getClient e = some c →
    ∀ name', (∀ e' id', w.Is e' name' id' → w.getClient e' = none) →
      Told w (w.dispatch b e (.whisperChat name' message)) (· = c)
        (.whisper "" "User cannot be found or is offline")
  /-- No two characters share a name or an id. -/
  apart : ∀ e e' name name' id id', w.Is e name id → w.Is e' name' id' →
    name = name' ∨ id = id' → e = e'

/-- What the two tables are to satisfy while packets are dispatched. -/
structure Known (w : World) : Prop extends w.Inv where
  registered : w.registry.Registered
  found : w.registry.AllFound

end World

section Lines

variable {w : World}

theorem Told.congr {w' : World} {audience audience' : ℕ → Prop} {line : Line}
    (h : Told w w' audience line) (hsame : ∀ c, audience' c ↔ audience c) :
    Told w w' audience' line := by
  intro c
  obtain ⟨hin, hout⟩ := h c
  exact ⟨fun hc => hin ((hsame c).mp hc), fun hc => hout (hc ∘ (hsame c).mpr)⟩

theorem told_send (c : ℕ) (line : Line) : Told w (w.send c line) (· = c) line := by
  intro c'
  refine ⟨?_, fun hne => update_of_ne hne _ _⟩
  rintro rfl
  exact update_self _ _ _

/-- Who is on the list of clients twice would be sent the line twice. -/
theorem told_sendEach {cs : List ℕ} (hnodup : cs.Nodup) (line : Line) :
    Told w (cs.foldl (fun w c => w.send c line) w) (· ∈ cs) line := by
  induction cs generalizing w with
  | nil => exact fun c => ⟨fun hmem => absurd hmem List.not_mem_nil, fun _ => rfl⟩
  | cons c cs ih =>
      obtain ⟨hnew, hnodup'⟩ := List.nodup_cons.mp hnodup
      have hfirst := told_send (w := w) c line
      intro c'
      obtain ⟨hmem, hnot⟩ := ih (w := w.send c line) hnodup' c'
      by_cases hc : c' = c
      · subst hc
        refine ⟨fun _ => ?_, fun hout => absurd List.mem_cons_self hout⟩
        exact (hnot hnew).trans ((hfirst c').1 rfl)
      · rw [(hfirst c').2 hc] at hmem hnot
        refine ⟨fun hin => hmem ((List.mem_cons.mp hin).resolve_left hc), fun hout => hnot ?_⟩
        exact fun hin => hout (List.mem_cons_of_mem c hin)

/-- A client plays one entity. -/
theorem getClient_injective (hw : w.views.Bound) {e e' : Entity} {c : ℕ}
    (he : w.getClient e = some c) (he' : w.getClient e' = some c) : e = e' := by
  have hplays : ∀ e, w.getClient e = some c → (w.views.clients c).entity = some e := by
    intro e he
    obtain ⟨hsocket, -⟩ := Option.filter_eq_some_iff.mp he
    obtain ⟨comps, hcomps, hc⟩ := Option.bind_eq_some_iff.mp hsocket
    exact hw.socket e comps c hcomps hc
  exact Option.some.inj ((hplays e he).symm.trans (hplays e' he'))

theorem told_sendAll (hw : w.views.Bound) {es : List Entity} (hnodup : es.Nodup) (line : Line) :
    Told w (w.sendAll es line) (fun c => ∃ e ∈ es, w.getClient e = some c) line := by
  have hclients : (es.filterMap w.getClient).Nodup := by
    refine hnodup.filterMap fun e e' c he he' => ?_
    exact getClient_injective hw he he'
  exact (told_sendEach hclients line).congr fun c => List.mem_filterMap.symm

end Lines

section Chat

variable {b : Buckets} {w : World}

theorem World.Is.basic {e : Entity} {name : String} {id : Id} (h : w.Is e name id) :
    ∃ basic, w.basic e = some basic ∧ basic.name = name ∧ basic.id = id := by
  obtain ⟨comps, hcomps, hkeys⟩ := Option.map_eq_some_iff.mp h
  rw [Registry.Components.keys] at hkeys
  split_ifs at hkeys
  obtain ⟨basic, hbasic, hsame⟩ := Option.map_eq_some_iff.mp hkeys
  obtain ⟨rfl, rfl⟩ := Prod.mk.inj hsame
  refine ⟨basic, ?_, rfl, rfl⟩
  rw [World.basic, hcomps]
  exact hbasic

/-- What is found under a name is the character of that name. -/
theorem World.Known.is_of_name (hw : w.Known) {name : String} {e : Entity}
    (h : w.getEntityByName name = some e) : ∃ id, w.Is e name id := by
  obtain ⟨hentry, halive⟩ := Option.filter_eq_some_iff.mp h
  obtain ⟨comps, hcomps⟩ := Option.isSome_iff_exists.mp halive
  have hwho : w.registry.who e = some comps.keys := by
    rw [Registry.who, hcomps]
    rfl
  obtain ⟨⟨name', id⟩, hkeys⟩ : ∃ keys, comps.keys = some keys := by
    refine Option.ne_none_iff_exists'.mp fun hnone => ?_
    exact hw.registered.names.character name e hentry (hwho.trans (congrArg some hnone))
  rw [hkeys] at hwho
  have hkey : w.registry.byName.key e = some name' := by
    show (w.registry.who e).join.map Prod.fst = some name'
    rw [hwho]
    rfl
  obtain rfl := hw.registered.names.valid name e hentry name' hkey
  exact ⟨id, hwho⟩

theorem World.Known.apart (hw : w.Known) {e e' : Entity} {name name' : String} {id id' : Id}
    (he : w.Is e name id) (he' : w.Is e' name' id') (h : name = name' ∨ id = id') : e = e' := by
  obtain ⟨hname, hid⟩ := hw.found e name id he
  obtain ⟨hname', hid'⟩ := hw.found e' name' id' he'
  obtain rfl | rfl := h
  · exact Option.some.inj (hname.symm.trans hname')
  · exact Option.some.inj (hid.symm.trans hid')

theorem World.Known.hears (hw : w.Known) : w.Hears b where
  party := by
    intro e name id c p message he hclient hgroup
    obtain ⟨basic, hbasic, -, rfl⟩ := he.basic
    have hsend : w.dispatch b e (.partyChat message) =
        w.sendAll (w.parties.bases p).members (.party basic.id message) := by
      simp only [World.dispatch, hclient, World.partyChat, hbasic, hgroup]
    have hnodup : (w.parties.bases p).members.Nodup := (hw.parties.consistent p).nodup
    have htold := told_sendAll hw.views.kept.bound hnodup (.party basic.id message)
    rw [hsend]
    exact htold.congr fun c' => exists_congr fun e' => and_congr_left' hw.parties.mem_iff.symm
  alone := by
    intro e message hgroup
    simp only [World.dispatch, World.partyChat, hgroup]
    split
    · rfl
    · split
      · rename_i hsome
        exact absurd hsome (by simp)
      · rfl
  whisper := by
    intro e name id c message he hclient e' name' id' c' he' hclient'
    obtain ⟨basic, hbasic, rfl, -⟩ := he.basic
    have hfind : w.getEntityByName name' = some e' := (hw.found e' name' id' he').1
    have hsend : w.dispatch b e (.whisperChat name' message) =
        w.send c' (.whisper basic.name message) := by
      simp only [World.dispatch, hclient, World.whisperChat, hbasic, hfind, Option.bind_some,
        hclient']
    rw [hsend]
    exact told_send c' _
  offline := by
    intro e name id c message he hclient name' hnone
    obtain ⟨basic, hbasic, -, -⟩ := he.basic
    have hfind : (w.getEntityByName name').bind w.getClient = none := by
      cases hname : w.getEntityByName name' with
      | none => rfl
      | some e' =>
          obtain ⟨id', he'⟩ := hw.is_of_name hname
          exact hnone e' id' he'
    have hsend : w.dispatch b e (.whisperChat name' message) =
        w.send c (.whisper "" "User cannot be found or is offline") := by
      simp only [World.dispatch, hclient, World.whisperChat, hbasic, hfind]
    rw [hsend]
    exact told_send c _
  apart _ _ _ _ _ _ he he' h := hw.apart he he' h

/-! ## Every run -/

theorem World.Known.of_quiet {w' : World} (hw : w.Known) (hinv : w'.Inv)
    (hquiet : Registry.Quiet w.registry w'.registry) : w'.Known where
  toInv := hinv
  registered := Registry.registered_quiet hquiet hw.registered
  found := hquiet.allFound_iff.mpr hw.found

theorem known_during (hw : w.Known) (packets : List (Entity × Packet)) :
    (w.during b packets).Known := by
  have hcreates := hw.of_quiet (inv_runCreates (b := b) hw.toInv) (quiet_runCreates hw.toInv)
  refine foldl_invariant World.Known (fun w' p hw' => ?_) hcreates packets
  exact hw'.of_quiet (inv_dispatch hw'.toInv p.1 p.2) (quiet_dispatch p.1 p.2)

theorem known_tick (hw : w.Known) (packets : List (Entity × Packet)) :
    (w.tick b packets).Known := by
  have hdispatched := known_during (b := b) hw packets
  have hshrinks := Registry.shrinks_runDeletes hdispatched.views.registry
  have hregistry : (w.tick b packets).registry = (w.during b packets).registry.runDeletes := by
    rw [World.registry, World.tick, runDeletes_views, Views.runDeletes_registry]
    rfl
  exact ⟨inv_tick hw.toInv packets, hregistry ▸ hshrinks.registered hdispatched.registered,
    hregistry ▸ hshrinks.allFound hdispatched.found⟩

theorem known_next (hw : w.Known) {e : Event} (hnew : loadsNew b w e) : (next b w e).Known := by
  cases e with
  | outside e h =>
      have hinv := inv_outside (b := b) hw.toInv h
      have houtside := registry_outside (b := b) (v := w.views) h
      obtain ⟨hregistered, hfound⟩ : Registry.Registered (Views.next b w.views e).registry ∧
          Registry.AllFound (Views.next b w.views e).registry := by
        generalize (Views.next b w.views e).registry = r' at houtside ⊢
        cases houtside with
        | quiet hquiet =>
            exact ⟨Registry.registered_quiet hquiet hw.registered,
              hquiet.allFound_iff.mpr hw.found⟩
        | load c name =>
            exact ⟨Registry.registered_loaded hw.registered name,
              (Registry.allFound_loaded_iff hw.registered.names hw.found name).mpr hnew⟩
      exact ⟨hinv, hregistered, hfound⟩
  | update packets => exact known_tick hw packets

theorem known_start : start.Known where
  toInv := inv_start
  registered := Registry.registered_start
  found := by
    intro e name id he
    have hnone : start.registry.who e = none := rfl
    rw [hnone] at he
    exact absurd he (by simp)

/-- **Chat reaches whom it is for**, and says who said it, in every run of the map server whose
characters are new when they are loaded. -/
theorem heard {es : List Event} (h : Run (Guarded (loadsNew b) (Step b)) start es w)
    (packets : List (Entity × Packet)) : (w.during b packets).Hears b := by
  have hknown : w.Known := by
    refine h.state_invariant known_start ?_
    rintro w e _ hw ⟨hnew, rfl⟩
    exact known_next hw hnew
  exact (known_during hknown packets).hears

end Chat

/-! ### Two characters talk -/

theorem loadsNew_of_lt {b : Buckets} {w : World} {c : ℕ} {name : String}
    (hname : name ≠ "") (hid : w.registry.freeId b ≠ 0)
    (hnew : ∀ e < w.registry.created, (w.registry.who e).join.all
      fun keys => keys.1 ≠ name ∧ keys.2 ≠ w.registry.freeId b) :
    loadsNew b w (.outside (.load c (.loaded name)) rfl) := by
  refine ⟨hname, hid, fun e name' id' he => ?_⟩
  have hlt : e < w.registry.created := by
    by_contra hge
    have hnone : w.registry.who e = none := by
      rw [Registry.who, w.registry.fresh e (not_lt.mp hge)]
      rfl
    rw [hnone] at he
    exact absurd he (by simp)
  have hall := hnew e hlt
  rw [he] at hall
  exact of_decide_eq_true hall

/-- An NPC takes id 0; then two characters join. -/
def arrivals : List Event :=
  [.outside .createNpc rfl, .update [], .outside (.connect 0) rfl,
    .outside (.load 0 (.loaded "a")) rfl, .outside (.assignSocket 0) rfl,
    .outside (.connect 1) rfl, .outside (.load 1 (.loaded "b")) rfl,
    .outside (.assignSocket 1) rfl]

/-- The first invites the second. -/
def pairing : List (Entity × Packet) :=
  [(1, .partyReq ⟨.MAKE, 2⟩), (2, .partyReply ⟨.ACCEPT_MAKE, 1⟩)]

theorem run_arrivals : Run (Guarded (loadsNew .least) (Step .least)) start arrivals
    (arrivals.foldl (next .least) start) := by
  refine Run.cons ⟨trivial, rfl⟩ (Run.cons ⟨trivial, rfl⟩ (Run.cons ⟨trivial, rfl⟩
    (Run.cons ⟨?_, rfl⟩ (Run.cons ⟨trivial, rfl⟩ (Run.cons ⟨trivial, rfl⟩
    (Run.cons ⟨?_, rfl⟩ (Run.cons ⟨trivial, rfl⟩ Run.nil)))))))
  · exact loadsNew_of_lt (by decide) (by decide) (by decide)
  · exact loadsNew_of_lt (by decide) (by decide) (by decide)

theorem heard_pair : ∃ w : World,
    ((w.during .least (pairing ++ [(1, .partyChat "hi"), (2, .whisperChat "a" "hello")])).lines 0 =
      [.whisper "b" "hello", .party 1 "hi"]) ∧ (w.during .least pairing).Hears .least :=
  ⟨_, by decide, heard run_arrivals pairing⟩

end OsIrose.Community

/-
Who gets into a party, and whether it was asked.

The pending request of an inviter is one flag on its `Party` component, without a record of
whom it went to. The history of a run says whom each inviter has asked and who has answered
(`Invited`); `Ledger` keeps the same as a counter for each inviter and invitee, which a
removal of the inviter's component resets. A reply gets an entity into a party against the
history exactly if the counter is 0 (`consent_iff`), and nothing in the code looks at it.
-/
import OsIrose.PartyRoster

set_option autoImplicit false

namespace OsIrose.Parties

open Function Groups Runs

/-! ## Requests and replies in a history -/

/-- The inviter and the entity that the event sends a `PARTY_REQ` of the inviter. -/
def asks (w : World) : Event → Option (Entity × Entity)
  | .req entity packet => do
      let other ← w.find packet.idXorTag
      match packet.request with
        | .MAKE => if (w.group entity).isNone then some (entity, other) else none
        | .JOIN => if (w.group entity).isSome then some (entity, other) else none
        | _ => none
  | _ => none

/-- The inviter whose request the event answers, and the entity that answers it. -/
def answers (w : World) : Event → Option (Entity × Entity)
  | .reply entity packet => do
      let other ← w.find packet.idXorTag
      let c ← w.component other
      match packet.reply with
        | .BUSY | .REJECT | .ACCEPT_MAKE | .ACCEPT_JOIN =>
            if c.isRequested then some (other, entity) else none
        | _ => none
  | _ => none

/-- Whether the event is marked with `x`, as a number. -/
def hit (mark : World → Event → Option (Entity × Entity)) (x : Entity × Entity) (w : World)
    (ev : Event) : ℕ :=
  if mark w ev = some x then 1 else 0

/-- How many events of a run from `w` are marked with `x`. -/
def count (mark : World → Event → Option (Entity × Entity)) (x : Entity × Entity) :
    World → List Event → ℕ
  | _, [] => 0
  | w, ev :: es => hit mark x w ev + count mark x (next w ev) es

theorem count_append (mark : World → Event → Option (Entity × Entity)) (x : Entity × Entity)
    (w : World) (es : List Event) (ev : Event) :
    count mark x w (es ++ [ev]) = count mark x w es + hit mark x (es.foldl next w) ev := by
  induction es generalizing w with
  | nil => simp [count]
  | cons e es ih => simp [count, ih, Nat.add_assoc]

/-- The state after a history. -/
def reached (env : Env) (es : List Event) : World :=
  es.foldl next (start env)

/-- A part of the history that starts with a request of `x.1` to `x.2`, and in which `x.1`
keeps its `Party` component. -/
structure Window (env : Env) (x : Entity × Entity) (before : List Event) (ev : Event)
    (after : List Event) : Prop where
  asked : asks (reached env before) ev = some x
  kept : ∀ p, p <+: after → (reached env (before ++ ev :: p)).component x.1 ≠ none

/-- In the history `es`, the inviter `x.1` has asked `x.2`, it has kept its `Party` component
since, and of its requests to `x.2` since then one has not been used up by a reply. -/
def Invited (env : Env) (es : List Event) (x : Entity × Entity) : Prop :=
  ∃ before ev after, es = before ++ ev :: after ∧ Window env x before ev after ∧
    count answers x (reached env (before ++ [ev])) after ≤
      count asks x (reached env (before ++ [ev])) after

/-- The reply makes the entity `x.2` a member of the party of `x.1`. -/
def Admitted (w : World) (ev : Event) (x : Entity × Entity) : Prop :=
  ∃ packet, ev = .reply x.2 packet ∧ w.find packet.idXorTag = some x.1 ∧ w.group x.2 = none ∧
    ∃ p, (next w ev).group x.2 = some p ∧ (next w ev).group x.1 = some p

/-! ## The ledger -/

/-- The state, with how many requests of an inviter to an entity are not answered. -/
structure Ledger where
  world : World
  asked : Entity × Entity → ℕ

def Ledger.next (s : Ledger) (ev : Event) : Ledger where
  world := Parties.next s.world ev
  asked x :=
    if ((Parties.next s.world ev).component x.1).isNone then 0
    else s.asked x + hit asks x s.world ev - hit answers x s.world ev

def Ledger.start (env : Env) : Ledger where
  world := Parties.start env
  asked _ := 0

@[simp] theorem Ledger.world_foldl (s : Ledger) (es : List Event) :
    (es.foldl Ledger.next s).world = es.foldl Parties.next s.world := by
  induction es generalizing s with
  | nil => rfl
  | cons ev es ih => exact ih (s.next ev)

/-- What the counter says after a run. -/
def unanswered (env : Env) (es : List Event) (x : Entity × Entity) : ℕ :=
  (es.foldl Ledger.next (Ledger.start env)).asked x

theorem unanswered_append (env : Env) (es : List Event) (ev : Event) (x : Entity × Entity) :
    unanswered env (es ++ [ev]) x =
      if ((reached env (es ++ [ev])).component x.1).isNone then 0
      else unanswered env es x + hit asks x (reached env es) ev -
        hit answers x (reached env es) ev := by
  simp [unanswered, reached, Ledger.next, Ledger.start]

theorem hit_le (mark : World → Event → Option (Entity × Entity)) (x : Entity × Entity) (w : World)
    (ev : Event) : hit mark x w ev ≤ 1 := by
  rw [hit]
  split <;> omega

theorem hit_asks {w : World} {ev : Event} {x : Entity × Entity} (h : asks w ev = some x) :
    hit asks x w ev = 1 ∧ hit answers x w ev = 0 := by
  match ev with
  | .req entity packet => simp [hit, h, answers]

theorem Window.append {env : Env} {x : Entity × Entity} {before after : List Event}
    {ev e : Event} (h : Window env x before ev after)
    (hkept : (reached env (before ++ ev :: (after ++ [e]))).component x.1 ≠ none) :
    Window env x before ev (after ++ [e]) where
  asked := h.asked
  kept p hp := by
    rcases List.prefix_concat_iff.mp hp with rfl | hp
    · exact hkept
    · exact h.kept p hp

theorem reached_window (env : Env) (before after : List Event) (ev : Event) :
    after.foldl next (reached env (before ++ [ev])) = reached env (before ++ ev :: after) := by
  simp [reached]

/-- Where the counter is not 0, it counts the requests of some window that are not used up. -/
theorem exists_window (env : Env) (x : Entity × Entity) (es : List Event) (n : ℕ)
    (h : unanswered env es x = n + 1) :
    ∃ before ev after, es = before ++ ev :: after ∧ Window env x before ev after ∧
      count asks x (reached env (before ++ [ev])) after =
        count answers x (reached env (before ++ [ev])) after + n := by
  induction es using List.reverseRecOn generalizing n with
  | nil => simp [unanswered, Ledger.start] at h
  | append_singleton es e ih =>
      rw [unanswered_append] at h
      split at h
      · omega
      · rename_i hkept
        have hkept' : (reached env (es ++ [e])).component x.1 ≠ none := by simpa using hkept
        by_cases hfirst : unanswered env es x = 0
        · -- the request just made opens the window
          have hasks : asks (reached env es) e = some x := by
            by_contra hnot
            simp [hfirst, hit, hnot] at h
          have hone := hit_asks hasks
          refine ⟨es, e, [], by simp, ⟨hasks, fun p hp => ?_⟩, ?_⟩
          · rw [List.prefix_nil.mp hp]
            exact hkept'
          · simp only [count]
            omega
        · obtain ⟨m, hm⟩ := Nat.exists_eq_succ_of_ne_zero hfirst
          obtain ⟨before, ev, after, rfl, hwindow, hcount⟩ := ih m hm
          refine ⟨before, ev, after ++ [e], by simp, hwindow.append (by simpa using hkept'), ?_⟩
          rw [count_append, count_append, reached_window]
          have hle := hit_le answers x (reached env (before ++ ev :: after)) e
          omega

/-- In a window, the requests that are not used up are counted. -/
theorem Window.count_le {env : Env} {x : Entity × Entity} {before after : List Event} {ev : Event}
    (h : Window env x before ev after) :
    count asks x (reached env (before ++ [ev])) after + 1 ≤
      count answers x (reached env (before ++ [ev])) after +
        unanswered env (before ++ ev :: after) x := by
  induction after using List.reverseRecOn with
  | nil =>
      have hkept := h.kept [] (List.prefix_refl _)
      have hone := hit_asks h.asked
      rw [unanswered_append, if_neg (by simpa using hkept)]
      simp only [count]
      omega
  | append_singleton after e ih =>
      have hwindow : Window env x before ev after :=
        ⟨h.asked, fun p hp => h.kept p (hp.trans (List.prefix_append after [e]))⟩
      have hkept := h.kept (after ++ [e]) (List.prefix_refl _)
      have hbefore := ih hwindow
      have hle := hit_le answers x (reached env (before ++ ev :: after)) e
      rw [count_append, count_append, reached_window,
        show before ++ ev :: (after ++ [e]) = (before ++ ev :: after) ++ [e] by simp] at *
      rw [unanswered_append, if_neg (by simpa using hkept)]
      omega

/-- **The ledger keeps what the history says.** -/
theorem invited_iff (env : Env) (es : List Event) (x : Entity × Entity) :
    Invited env es x ↔ unanswered env es x ≠ 0 := by
  constructor
  · rintro ⟨before, ev, after, rfl, hwindow, hle⟩
    have hcount := hwindow.count_le
    omega
  · intro hne
    obtain ⟨n, hn⟩ := Nat.exists_eq_succ_of_ne_zero hne
    obtain ⟨before, ev, after, heq, hwindow, hcount⟩ := exists_window env x es n hn
    exact ⟨before, ev, after, heq, hwindow, by omega⟩

/-! ## Who is let in -/

/-- An entity without a party is let in by an accepting reply to a pending request. -/
theorem admitted_iff {w : World} (h : w.Inv) (ev : Event) (x : Entity × Entity) :
    Admitted w ev x ↔ ∃ packet c, ev = .reply x.2 packet ∧ w.admits x.2 packet = some (x.1, c) := by
  constructor
  · rintro ⟨packet, rfl, hfind, hgroup, p, hp, -⟩
    match hadmits : w.admits x.2 packet with
    | none =>
        -- without it the groups stay as they are
        have hroster := (next_effect w (.reply x.2 packet)).roster h
        have hstay : (next w (.reply x.2 packet)).group x.2 = w.group x.2 := by
          rw [show action w (.reply x.2 packet) = .stay by simp [action, hadmits]] at hroster
          exact congrFun (congrArg Roster.group hroster) x.2
        rw [hstay, hgroup] at hp
        exact absurd hp (by simp)
    | some (other, c) =>
        have hother := (World.admits_eq_some.mp hadmits).1
        rw [hfind] at hother
        obtain rfl := Option.some.inj hother
        exact ⟨packet, c, rfl, hadmits⟩
  · rintro ⟨packet, c, rfl, hadmits⟩
    obtain ⟨hfind, hc, -, hnew⟩ := World.admits_eq_some.mp hadmits
    have hroster := (next_effect w (.reply x.2 packet)).roster h
    have hgroup := fun e => congrFun (congrArg Roster.group hroster) e
    have hne : x.1 ≠ x.2 := by
      intro heq
      rw [heq, hnew] at hc
      exact absurd hc (by simp)
    refine ⟨packet, rfl, hfind, by simp [World.group, hnew], ?_⟩
    cases hparty : c.party with
    | none =>
        refine ⟨w.fresh, ?_, ?_⟩
        · simpa [action, hadmits, hparty, Roster.apply] using hgroup x.2
        · simpa [action, hadmits, hparty, Roster.apply, hne] using hgroup x.1
    | some p =>
        have hold : w.group x.1 = some p := (World.group_of_component hc).trans hparty
        refine ⟨p, ?_, ?_⟩
        · simpa [action, hadmits, hparty, Roster.apply] using hgroup x.2
        · simpa [action, hadmits, hparty, Roster.apply, hne, hold] using hgroup x.1

/-- An entity without a party accepts, and the inviter, whose request is pending, has not
asked it, or it has used up every request by a reply. -/
def Intrudes (env : Env) (es : List Event) (ev : Event) : Prop :=
  ∃ entity packet other c, ev = .reply entity packet ∧
    (reached env es).admits entity packet = some (other, c) ∧
    unanswered env es (other, entity) = 0

/-- Every entity that a run lets into a party was invited exactly as long as no accepting
reply comes from one that has no request left to answer. -/
theorem consent_iff (env : Env) (es : List Event) :
    (∀ p ev, p ++ [ev] <+: es → ∀ x, Admitted (reached env p) ev x → Invited env p x) ↔
      ∀ p ev, p ++ [ev] <+: es → ¬ Intrudes env p ev := by
  constructor
  · rintro h p ev hp ⟨entity, packet, other, c, rfl, hadmits, hzero⟩
    have hadmitted := (admitted_iff (inv_foldl env p) (.reply entity packet) (other, entity)).mpr
      ⟨packet, c, rfl, hadmits⟩
    exact (invited_iff env p _).mp (h p _ hp _ hadmitted) hzero
  · rintro h p ev hp ⟨other, entity⟩ hadmitted
    obtain ⟨packet, c, rfl, hadmits⟩ := (admitted_iff (inv_foldl env p) ev _).mp hadmitted
    refine (invited_iff env p _).mpr fun hzero => ?_
    exact h p _ hp ⟨entity, packet, other, c, rfl, hadmits, hzero⟩

/-- 1 asks 2, and 3 accepts. -/
theorem uninvited :
    ¬ ∀ (env : Env) (es : List Event) (ev : Event) (x : Entity × Entity),
      Admitted (reached env es) ev x → Invited env es x := by
  intro h
  have hadmitted : Admitted (reached everyone [.req 1 ⟨.MAKE, 2⟩]) (.reply 3 ⟨.ACCEPT_MAKE, 1⟩)
      (1, 3) :=
    ⟨_, rfl, by decide, by decide, 0, by decide, by decide⟩
  have hzero : unanswered everyone [.req 1 ⟨.MAKE, 2⟩] (1, 3) = 0 := by decide
  exact (invited_iff _ _ _).mp (h _ _ _ _ hadmitted) hzero

end OsIrose.Parties

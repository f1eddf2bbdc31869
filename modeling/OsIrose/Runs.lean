/-
Finite runs of a labelled step relation.

`Run step s es s'` is a run from `s` to `s'` whose labels are `es`, in order. Every
prefix of a run is a run, so a statement about the last state of every run is a
statement about every state reached.

Five rules carry the developments above. `Run.invariant` is the induction, done once:
a property of the labels so far and the current state that holds at the start and is
kept by a step holds at the end. `foldl_remaining` is the same for a property of the labels
to come. `Run.simulate` turns a run into a run of a more abstract
system. `run_guarded_iff` is for properties that fail for good once they fail: if every
step keeps the property exactly when a guard holds before it, then the property holds at
the end of a run exactly when the guard held at every step of it, that is when it is a run
of the guarded relation. `foldl_reached_iff_of_legal` and its special cases
`foldl_reached_iff_of_strong` and `foldl_reached_iff` are the same for steps that are a
function and a property that is to hold in every state reached.
-/
import Mathlib.Data.List.Induction

set_option autoImplicit false

namespace OsIrose.Runs

variable {σ ε : Type*}

/-- A finite run: the labels in order and the state they lead to. -/
inductive Run (step : σ → ε → σ → Prop) (s : σ) : List ε → σ → Prop
  | nil : Run step s [] s
  | snoc {es : List ε} {s' s'' : σ} {e : ε} :
      Run step s es s' → step s' e s'' → Run step s (es ++ [e]) s''

/-- The steps whose label the guard allows in the state before. -/
def Guarded (guard : σ → ε → Prop) (step : σ → ε → σ → Prop) (s : σ) (e : ε) (s' : σ) :
    Prop :=
  guard s e ∧ step s e s'

variable {step : σ → ε → σ → Prop} {s : σ}

/-- **The invariant rule.** -/
theorem Run.invariant {inv : List ε → σ → Prop} (hinit : inv [] s)
    (hstep : ∀ es s' e s'', inv es s' → step s' e s'' → inv (es ++ [e]) s'')
    {es : List ε} {s' : σ} (h : Run step s es s') : inv es s' := by
  induction h with
  | nil => exact hinit
  | snoc _ hlast ih => exact hstep _ _ _ _ ih hlast

/-- The invariant rule for a property of states alone. -/
theorem Run.state_invariant {inv : σ → Prop} (hinit : inv s)
    (hstep : ∀ s' e s'', inv s' → step s' e s'' → inv s'') {es : List ε} {s' : σ}
    (h : Run step s es s') : inv s' := by
  induction h with
  | nil => exact hinit
  | snoc _ hlast ih => exact hstep _ _ _ ih hlast

/-- The simulation rule: where every step from a state with the invariant is, seen through
`abs`, a step of another system, a run is a run of that system. -/
theorem Run.simulate {τ ε' : Type*} {step' : τ → ε' → τ → Prop} {abs : σ → τ} {inv : σ → Prop}
    (hinit : inv s) (hinv : ∀ s' e s'', inv s' → step s' e s'' → inv s'')
    (hsim : ∀ s' e s'', inv s' → step s' e s'' → ∃ e', step' (abs s') e' (abs s''))
    {es : List ε} {s' : σ} (h : Run step s es s') :
    ∃ es', Run step' (abs s) es' (abs s') := by
  induction h with
  | nil => exact ⟨[], Run.nil⟩
  | snoc hrun hlast ih =>
      obtain ⟨es', hes'⟩ := ih
      obtain ⟨e', he'⟩ := hsim _ _ _ (hrun.state_invariant hinit hinv) hlast
      exact ⟨es' ++ [e'], Run.snoc hes' he'⟩

theorem Run.mono {step' : σ → ε → σ → Prop} (hstep : ∀ s e s', step s e s' → step' s e s')
    {es : List ε} {s' : σ} (h : Run step s es s') : Run step' s es s' := by
  induction h with
  | nil => exact Run.nil
  | snoc _ hlast ih => exact Run.snoc ih (hstep _ _ _ hlast)

theorem Run.append {es es' : List ε} {s' s'' : σ} (h : Run step s es s')
    (h' : Run step s' es' s'') : Run step s (es ++ es') s'' := by
  induction h' with
  | nil => exact (List.append_nil es).symm ▸ h
  | snoc _ hlast ih => exact List.append_assoc es _ _ ▸ Run.snoc ih hlast

theorem Run.cons {e : ε} {es : List ε} {s' s'' : σ} (hstep : step s e s')
    (h : Run step s' es s'') : Run step s (e :: es) s'' :=
  Run.append (Run.snoc Run.nil hstep) h

/-- Where the guard says nothing about the labels of a run, it is a guarded run. -/
theorem Run.guarded (guard : σ → ε → Prop) {es : List ε} {s' : σ} (h : Run step s es s')
    (hall : ∀ e ∈ es, ∀ t, guard t e) : Run (Guarded guard step) s es s' := by
  induction h with
  | nil => exact Run.nil
  | snoc _ hlast ih =>
      rw [List.forall_mem_append, List.forall_mem_singleton] at hall
      exact Run.snoc (ih hall.1) ⟨hall.2 _, hlast⟩

/-- A run of a deterministic step function can be computed. -/
theorem Run.of_foldlM {next : σ → ε → Option σ} {es : List ε} {s' : σ}
    (h : es.foldlM next s = some s') : Run (fun s e s' => next s e = some s') s es s' := by
  induction es using List.reverseRecOn generalizing s' with
  | nil =>
      obtain rfl := Option.some.inj h
      exact Run.nil
  | append_singleton es e ih =>
      rw [List.foldlM_append] at h
      obtain ⟨t, ht, hlast⟩ := Option.bind_eq_some_iff.mp h
      refine Run.snoc (ih ht) ?_
      obtain ⟨u, hu, hnil⟩ := Option.bind_eq_some_iff.mp hlast
      obtain rfl := Option.some.inj hnil
      exact hu

/-- A guarded run of a deterministic step function can be computed. -/
theorem Run.guarded_of_foldlM {guard : σ → ε → Prop} [∀ s e, Decidable (guard s e)]
    {next : σ → ε → Option σ} {es : List ε} {s' : σ}
    (h : es.foldlM (fun s e => if guard s e then next s e else none) s = some s') :
    Run (Guarded guard (fun s e s' => next s e = some s')) s es s' := by
  have hstep : (fun s e s' => (if guard s e then next s e else none) = some s') =
      Guarded guard (fun s e s' => next s e = some s') := by
    funext s e s'
    exact propext Option.ite_none_right_eq_some
  exact hstep ▸ Run.of_foldlM h

/-- **The exact guard of a property.** `safe` holds at the end of a run if and only if
the guard held before each of its steps. -/
theorem run_guarded_iff {inv safe : σ → Prop} {guard : σ → ε → Prop}
    (hinv : ∀ s' e s'', inv s' → step s' e s'' → inv s'')
    (hback : ∀ s' e s'', inv s' → step s' e s'' → safe s'' → safe s')
    (hguard : ∀ s' e s'', inv s' → safe s' → step s' e s'' → (safe s'' ↔ guard s' e))
    (hs : inv s) (hsafe : safe s) {es : List ε} {s' : σ} (h : Run step s es s') :
    safe s' ↔ Run (Guarded guard step) s es s' := by
  have hreach : ∀ {es : List ε} {s' : σ}, Run step s es s' → inv s' :=
    fun h => h.state_invariant hs hinv
  constructor
  · intro hend
    induction h with
    | nil => exact Run.nil
    | snoc hrun hlast ih =>
        -- a run that ends well was well before its last step too
        have hi := hreach hrun
        have hsafe' := hback _ _ _ hi hlast hend
        exact Run.snoc (ih hsafe') ⟨(hguard _ _ _ hi hsafe' hlast).mp hend, hlast⟩
  · intro hg
    have hboth : ∀ t e t', inv t ∧ safe t → Guarded guard step t e t' → inv t' ∧ safe t' := by
      rintro t e t' ⟨hti, hts⟩ ⟨hge, hlast⟩
      exact ⟨hinv _ _ _ hti hlast, (hguard _ _ _ hti hts hlast).mpr hge⟩
    have hboth' : inv s' ∧ safe s' := hg.state_invariant ⟨hs, hsafe⟩ hboth
    exact hboth'.2

/-! ## Steps that are a function -/

section Function

variable {next : σ → ε → σ}

theorem foldl_run (next : σ → ε → σ) (s : σ) (es : List ε) :
    Run (fun s e s' => next s e = s') s es (es.foldl next s) := by
  induction es using List.reverseRecOn with
  | nil => exact Run.nil
  | append_singleton es e ih =>
      rw [List.foldl_append]
      exact Run.snoc ih rfl

theorem foldl_invariant (inv : σ → Prop) (hinv : ∀ s e, inv s → inv (next s e)) (hs : inv s)
    (es : List ε) : inv (es.foldl next s) := by
  refine (foldl_run next s es).state_invariant hs ?_
  rintro s e _ h rfl
  exact hinv s e h

/-- The invariant rule for an invariant that is also about the steps still to come. -/
theorem foldl_remaining (next : σ → ε → σ) (inv : List ε → σ → Prop)
    (hstep : ∀ e es s, inv (e :: es) s → inv es (next s e)) {es : List ε} (hs : inv es s) :
    inv [] (es.foldl next s) := by
  induction es generalizing s with
  | nil => exact hs
  | cons e es ih => exact ih (hstep e es s hs)

/-- What holds of every step of a run holds of the first one and of every step after it. -/
theorem forall_step_cons_iff {P : σ → ε → Prop} {e : ε} {es : List ε} :
    (∀ p e', p ++ [e'] <+: e :: es → P (p.foldl next s) e') ↔
      P s e ∧ ∀ p e', p ++ [e'] <+: es → P (p.foldl next (next s e)) e' := by
  constructor
  · intro h
    refine ⟨h [] e ?_, fun p e' hp => h (e :: p) e' ?_⟩
    · exact List.cons_prefix_cons.mpr ⟨rfl, List.nil_prefix⟩
    · exact List.cons_prefix_cons.mpr ⟨rfl, hp⟩
  · rintro ⟨hfirst, hrest⟩ p e' hp
    cases p with
    | nil =>
        obtain ⟨rfl, _⟩ := List.cons_prefix_cons.mp hp
        exact hfirst
    | cons e₀ p =>
        obtain ⟨rfl, hrun⟩ := List.cons_prefix_cons.mp hp
        exact hrest p e' hrun

theorem forall_step_nil (P : σ → ε → Prop) (p : List ε) (e : ε) (hp : p ++ [e] <+: []) :
    P (p.foldl next s) e :=
  absurd (List.prefix_nil.mp hp) (by simp)

/-- **The exact guard of a property of every state reached**, in a run of legal steps. Unlike
in `run_guarded_iff`, a later step may restore the property. That a guarded step keeps it may
take a stronger property, which then holds as well. -/
theorem foldl_reached_iff_of_legal {strong safe : σ → Prop} {legal guard : σ → ε → Prop}
    (hstrong : ∀ s e, strong s → legal s e → guard s e → strong (next s e))
    (hsafe : ∀ s, strong s → safe s)
    (hguard : ∀ s e, legal s e → safe s → safe (next s e) → guard s e)
    (hst : strong s) (es : List ε)
    (hlegal : ∀ p e, p ++ [e] <+: es → legal (p.foldl next s) e) :
    (∀ p, p <+: es → safe (p.foldl next s)) ↔
      ∀ p e, p ++ [e] <+: es → guard (p.foldl next s) e := by
  have hlast : ∀ p e, (p ++ [e]).foldl next s = next (p.foldl next s) e := fun p e => by
    rw [List.foldl_append, List.foldl_cons, List.foldl_nil]
  constructor
  · intro hall p e hpe
    have hp : p <+: es := (List.prefix_append p [e]).trans hpe
    exact hguard _ e (hlegal p e hpe) (hall p hp) (hlast p e ▸ hall _ hpe)
  · intro hall p hp
    suffices hstrong' : strong (p.foldl next s) from hsafe _ hstrong'
    induction p using List.reverseRecOn with
    | nil => exact hst
    | append_singleton p e ih =>
        rw [hlast]
        have hp' : p <+: es := (List.prefix_append p [e]).trans hp
        exact hstrong _ e (ih hp') (hlegal p e hp) (hall p e hp)

/-- The same where an invariant makes every step legal. -/
theorem foldl_reached_iff_of_strong {inv strong safe : σ → Prop} {guard : σ → ε → Prop}
    (hinv : ∀ s e, inv s → inv (next s e))
    (hstrong : ∀ s e, inv s → strong s → guard s e → strong (next s e))
    (hsafe : ∀ s, inv s → strong s → safe s)
    (hguard : ∀ s e, inv s → safe s → safe (next s e) → guard s e)
    (hs : inv s) (hst : strong s) (es : List ε) :
    (∀ p, p <+: es → safe (p.foldl next s)) ↔
      ∀ p e, p ++ [e] <+: es → guard (p.foldl next s) e := by
  have hreach : ∀ p : List ε, inv (p.foldl next s) := foldl_invariant inv hinv hs
  refine @foldl_reached_iff_of_legal _ _ s next (fun s => inv s ∧ strong s) safe
    (fun s _ => inv s) guard ?_ (fun s h => hsafe s h.1 h.2) hguard ⟨hs, hst⟩ es
    fun p _ _ => hreach p
  intro s e h _ hg
  exact ⟨hinv s e h.1, hstrong s e h.1 h.2 hg⟩

theorem foldl_reached_iff {inv safe : σ → Prop} {guard : σ → ε → Prop}
    (hinv : ∀ s e, inv s → inv (next s e))
    (hstep : ∀ s e, inv s → safe s → (safe (next s e) ↔ guard s e))
    (hs : inv s) (hsafe : safe s) (es : List ε) :
    (∀ p, p <+: es → safe (p.foldl next s)) ↔
      ∀ p e, p ++ [e] <+: es → guard (p.foldl next s) e :=
  foldl_reached_iff_of_strong hinv (fun s e hi h hg => (hstep s e hi h).mpr hg)
    (fun _ _ h => h) (fun s e hi h h' => (hstep s e hi h).mp h') hs hsafe es

end Function

end OsIrose.Runs

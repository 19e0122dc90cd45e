import TwinScheme.Proofs.Evaluator.Recorded

/-!
# Where an error arises and what becomes of it

A run that fails has one step at which its error arises, and from there on nothing
happens but that the error is handed past the frames that were waiting. What those
frames make of it is settled at that step: it depends on the error and the stack, and
on nothing that is evaluated later.
-/

namespace TwinScheme.Machine

variable {σ ρ : Type} {S : Scoping σ ρ} {limit : Nat}

/-- An error on its way past several frames, the first of them first. -/
def unwind (S : Scoping σ ρ) (stack : List (Frame ρ)) (e : Error) : Error :=
  stack.foldl (fun e frame => pass S frame e) e

/-- The step of a run at which an error arises, by the state it leads to. -/
structure Raises (S : Scoping σ ρ) (limit : Nat) (s t : State σ ρ) (e : Error) : Prop where
  control : t.control = .answer (.error e)
  step : ∃ r, Reaches S limit s r ∧ r.control.isFailure = false ∧ Machine.step S limit r = some t

/-! ## A run has one end -/

theorem eq_of_steps_halted {n k : Nat} {s t u : State σ ρ} (ht : steps S limit n s = some t)
    (hu : steps S limit k s = some u) (hdone : step S limit t = none)
    (hdone' : step S limit u = none) : t = u := by
  induction n generalizing k s with
  | zero =>
      cases ht
      cases k with
      | zero => exact Option.some.inj hu
      | succ k =>
          rw [steps, hdone] at hu
          cases hu
  | succ n ih =>
      cases k with
      | zero =>
          cases hu
          rw [steps, hdone'] at ht
          cases ht
      | succ k =>
          obtain ⟨s', hs', ht⟩ := Option.bind_eq_some_iff.1 ht
          obtain ⟨s'', hs'', hu⟩ := Option.bind_eq_some_iff.1 hu
          rw [hs'] at hs''
          cases hs''
          exact ih ht hu

theorem Reaches.tail {s t u : State σ ρ} (h : Reaches S limit s t)
    (hstep : Machine.step S limit t = some u) : Reaches S limit s u :=
  h.trans (.head hstep (.refl u))

theorem Reaches.eq_of_halted {s t u : State σ ρ} (ht : Reaches S limit s t)
    (hu : Reaches S limit s u) (hdone : Machine.step S limit t = none)
    (hdone' : Machine.step S limit u = none) : t = u := by
  obtain ⟨n, hn⟩ := ht
  obtain ⟨k, hk⟩ := hu
  exact eq_of_steps_halted hn hk hdone hdone'

/-- The end of an evaluation has the answer of the evaluator. -/
theorem reaches_evaluate (S : Scoping σ ρ) (limit : Nat) (env : ρ) (expr : Value) (m : Memory σ) :
    Reaches S limit ⟨.eval 0 env expr, [], m⟩
      ⟨.answer (Eval.runFrom m (S.evaluate limit env expr)).1, [],
        (Eval.runFrom m (S.evaluate limit env expr)).2⟩ :=
  eval_computes limit (Nat.zero_add limit) env expr [] m

theorem Reaches.runFrom_evaluate {env : ρ} {expr : Value} {m m' : Memory σ}
    {result : Except Error Value}
    (h : Reaches S limit ⟨.eval 0 env expr, [], m⟩ ⟨.answer result, [], m'⟩) :
    Eval.runFrom m (S.evaluate limit env expr) = (result, m') := by
  have heq := (reaches_evaluate S limit env expr m).eq_of_halted h rfl rfl
  injection heq with hanswer _ hmemory
  exact Prod.ext (Control.answer.inj hanswer) hmemory

/-! ## Unwinding -/

theorem reaches_unwind (e : Error) (stack : List (Frame ρ)) (m : Memory σ) :
    Reaches S limit ⟨.answer (.error e), stack, m⟩
      ⟨.answer (.error (unwind S stack e)), [], m⟩ := by
  induction stack generalizing e with
  | nil => exact .refl _
  | cons frame stack ih => exact .head rfl (ih (pass S frame e))

/-- What a run fails with is what its error has become. -/
theorem Raises.eq_unwind {s t u : State σ ρ} {e e' : Error} (h : Raises S limit s t e)
    (hu : Reaches S limit s u) (hdone : Machine.step S limit u = none)
    (hfails : u.control = .answer (.error e')) : e' = unwind S t.stack e := by
  obtain ⟨hcontrol, r, hr, -, hstep⟩ := h
  obtain ⟨c, stack, m⟩ := t
  dsimp only at hcontrol
  subst hcontrol
  have hend := (hr.tail hstep).trans (reaches_unwind e stack m)
  have heq := hu.eq_of_halted hend hdone rfl
  subst heq
  cases hfails
  rfl

/-- A run that fails has a step at which its error arises. -/
theorem exists_raises {s u : State σ ρ} (hs : s.control.isFailure = false)
    (hu : Reaches S limit s u) (hfails : u.control.isFailure = true) :
    ∃ t e, Raises S limit s t e := by
  obtain ⟨n, hn⟩ := hu
  induction n generalizing s with
  | zero =>
      cases hn
      rw [hs] at hfails
      cases hfails
  | succ n ih =>
      obtain ⟨s', hstep, hn⟩ := Option.bind_eq_some_iff.1 hn
      -- the error arises at this step or in the rest of the run
      cases hs' : s'.control.isFailure with
      | true =>
          obtain ⟨c, stack, m⟩ := s'
          cases c with
          | answer result =>
              cases result with
              | ok => cases hs'
              | error e => exact ⟨_, e, rfl, s, .refl s, hs, hstep⟩
          | _ => cases hs'
      | false =>
          obtain ⟨t, e, hcontrol, r, hr, hrun, hr'⟩ := ih hs' hn
          exact ⟨t, e, hcontrol, r, .head hstep hr, hrun, hr'⟩

/-- Where an error arises, all that is held is recorded, and the error has no context
yet. -/
theorem Raises.recorded {holds : σ → Value → Prop} {L : Ledger} (hS : S.Keeping holds)
    {s t : State σ ρ} {e : Error} (hs : s.Recorded holds L) (h : Raises S limit s t e) :
    ∃ L', L.Le L' ∧ t.Recorded holds L' ∧ e.Bare (·.Recorded L') := by
  obtain ⟨hcontrol, r, hr, hrun, hstep⟩ := h
  obtain ⟨L', hle, hr'⟩ := reaches_recorded hS hs hr
  obtain ⟨L'', hle', ht, hbare⟩ := step_goes hS hr' hrun hstep
  exact ⟨L'', hle.trans hle', ht, hbare e hcontrol⟩

end TwinScheme.Machine

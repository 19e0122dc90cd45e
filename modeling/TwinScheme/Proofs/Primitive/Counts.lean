import TwinScheme.Proofs.Evaluator.Failures
import TwinScheme.Proofs.Evaluator.Running

/-!
# Arguments are counted twice

The table says how many arguments a primitive procedure takes, and a call is checked
against it first. But each procedure takes its arguments apart by itself as well, and
refuses what it cannot take apart. Where both count alike, the check changes nothing,
whatever the arguments are and however procedures are called.

They count alike but in one place. The table asks of `map` for a procedure and a list,
and `map` itself is content with the procedure: it has no list to walk, and makes an
empty one.
-/

namespace TwinScheme.Primitive

variable {σ : Type} {p : Primitive} {args : List Value}

/-- What a procedure comes to by itself, given how procedures are called. -/
def runWith (applier : Value → List Value → Eval σ Value) (p : Primitive)
    (args : List Value) : Eval σ Value := do
  Scoping.perform applier (← Eval.ofExcept (p.run args))

/-- What a procedure comes to behind the arity of the table, given how procedures are
called. -/
def callWith (applier : Value → List Value → Eval σ Value) (p : Primitive)
    (args : List Value) : Eval σ Value := do
  Scoping.perform applier (← Eval.ofExcept (p.call args))

/-- A call of `map` without a list. -/
def MapsNothing (p : Primitive) (args : List Value) : Prop :=
  p = .map ∧ args.length = 1

/-- Without a list `map` does not get to its calls. -/
theorem run_map_singleton (f : Value) :
    run .map [f] =
      if f.isProcedure then .ok (.each f []) else .error (.type (.needsProcedure .map f) none) :=
  rfl

theorem counts_of_not_mapsNothing (h : ¬MapsNothing p args) :
    Counts (fun _ => True) p.arity args (p.run args) :=
  p.run_counts .trivial (fun _ _ => trivial) fun hp hone => h ⟨hp, hone⟩

theorem run_ne_arity_of_mapsNothing (h : MapsNothing p args) (expected got : Nat) :
    p.run args ≠ .error (.arity expected got) := by
  obtain ⟨rfl, hone⟩ := h
  obtain ⟨f, rfl⟩ := List.length_eq_one_iff.1 hone
  rw [run_map_singleton]
  split <;> exact nofun

/-- A procedure complains about the number of its arguments exactly if the table does,
and in the words of the table. -/
theorem run_eq_arity_iff {expected got : Nat} :
    p.run args = .error (.arity expected got) ↔
      p.arity.admits args.length = false ∧ ¬MapsNothing p args ∧
        expected = p.arity.expected ∧ got = args.length := by
  by_cases hmaps : MapsNothing p args
  · exact iff_of_false (run_ne_arity_of_mapsNothing hmaps expected got) fun h => h.2.1 hmaps
  · have hcounts := counts_of_not_mapsNothing hmaps
    cases hfits : p.arity.admits args.length with
    | true => exact iff_of_false ((hcounts.decides hfits).ne_arity _ _) nofun
    | false =>
        rw [hcounts.refuses hfits, Except.error.injEq, Error.arity.injEq]
        exact ⟨fun h => ⟨rfl, hmaps, h.1.symm, h.2.symm⟩, fun h => ⟨h.2.2.1.symm, h.2.2.2.symm⟩⟩

theorem call_of_admits (h : p.arity.admits args.length = true) : p.call args = p.run args := by
  rw [call, Arity.check, if_pos h]
  rfl

theorem call_of_not_admits (h : p.arity.admits args.length = false) :
    p.call args = .error (.arity p.arity.expected args.length) := by
  rw [call, Arity.check, h]
  rfl

theorem call_eq_run (h : ¬MapsNothing p args) : p.call args = p.run args := by
  cases hfits : p.arity.admits args.length with
  | true => exact call_of_admits hfits
  | false => rw [call_of_not_admits hfits, (counts_of_not_mapsNothing h).refuses hfits]

section

variable (applier : Value → List Value → Eval σ Value) (m : Memory σ)

theorem runFrom_callWith_map (f : Value) :
    Eval.runFrom m (callWith applier .map [f]) = (.error (.arity 2 1), m) :=
  rfl

theorem runFrom_runWith_map (f : Value) :
    Eval.runFrom m (runWith applier .map [f]) =
      if f.isProcedure then (.ok (.list m.supply []), ⟨m.supply + 1, m.bound⟩)
      else (.error (.type (.needsProcedure .map f) none), m) := by
  rw [runWith, run_map_singleton]
  split <;> rfl

theorem runFrom_callWith_eq_iff :
    Eval.runFrom m (callWith applier p args) = Eval.runFrom m (runWith applier p args) ↔
      ¬MapsNothing p args := by
  constructor
  · rintro heq ⟨rfl, hone⟩
    obtain ⟨f, rfl⟩ := List.length_eq_one_iff.1 hone
    rw [runFrom_callWith_map, runFrom_runWith_map] at heq
    split at heq <;> cases heq
  · intro h
    rw [callWith, call_eq_run h, runWith]

end

/-- A procedure refuses by itself the numbers of arguments that the table refuses, with
the same error, and no others, and so the check of the table changes nothing, however
procedures are called. The exception is `map` without a list: by the table it is short of
an argument, and by itself it makes an empty list, or refuses what is no procedure. -/
theorem counted_twice (p : Primitive) (args : List Value)
    (applier : Value → List Value → Eval σ Value) (m : Memory σ) :
    (∀ expected got, p.run args = .error (.arity expected got) ↔
      p.arity.admits args.length = false ∧ ¬MapsNothing p args ∧
        expected = p.arity.expected ∧ got = args.length) ∧
    (Eval.runFrom m (callWith applier p args) = Eval.runFrom m (runWith applier p args) ↔
      ¬MapsNothing p args) ∧
    ∀ f, Eval.runFrom m (callWith applier .map [f]) = (.error (.arity 2 1), m) ∧
      Eval.runFrom m (runWith applier .map [f]) =
        if f.isProcedure then (.ok (.list m.supply []), ⟨m.supply + 1, m.bound⟩)
        else (.error (.type (.needsProcedure .map f) none), m) := by
  refine ⟨fun expected got => run_eq_arity_iff, runFrom_callWith_eq_iff applier m, fun f => ?_⟩
  exact ⟨runFrom_callWith_map applier m f, runFrom_runWith_map applier m f⟩

/-- Not every procedure comes by itself to what it comes to behind the table: `map` does
not on `car` alone. -/
theorem not_callWith_eq_runWith :
    ¬∀ (σ : Type) (applier : Value → List Value → Eval σ Value) (m : Memory σ) p args,
      Eval.runFrom m (callWith applier p args) = Eval.runFrom m (runWith applier p args) := by
  intro h
  have hmap := h Unit (fun f _ => pure f) ⟨0, ()⟩ .map [.primitive .car]
  rw [runFrom_callWith_map, runFrom_runWith_map] at hmap
  cases hmap

end TwinScheme.Primitive

import TwinScheme.Lexical.Scoping
import TwinScheme.Proofs.Evaluator.Machine
import TwinScheme.Textual.Scoping

/-!
# Evaluation comes to an end

From every state that starts an evaluation or a call the machine comes to rest,
and with the result and the memory of the evaluator.

What has to get smaller is a pair. An evaluation inside another one has fewer
levels left, however large its expression is: a `let` makes a longer expression
than it is, and a call evaluates a body that comes from somewhere else. A call
takes no level, and `map` calls what it is given, `map` included; but each call
that it asks for has smaller arguments than its own, because they stand inside
its lists. So the induction is on the levels left, and for one number of levels
on the size of the arguments.

Each lemma says of one kind of control what computation it carries out, whatever
else waits on the stack.
-/

namespace TwinScheme.Machine

variable {σ ρ α : Type} {S : Scoping σ ρ} {limit : Nat}

/-! ## Runs of the machine -/

theorem steps_add (n k : Nat) (s : State σ ρ) :
    steps S limit (n + k) s = (steps S limit n s).bind (steps S limit k) := by
  induction n generalizing s with
  | zero => rw [Nat.zero_add]; rfl
  | succ n ih =>
      rw [Nat.succ_add, steps, steps, Option.bind_assoc]
      exact congrArg (step S limit s).bind (funext ih)

theorem Reaches.refl (s : State σ ρ) : Reaches S limit s s :=
  ⟨0, rfl⟩

theorem Reaches.trans {s t u : State σ ρ} (h : Reaches S limit s t) (h' : Reaches S limit t u) :
    Reaches S limit s u := by
  obtain ⟨n, hn⟩ := h
  obtain ⟨k, hk⟩ := h'
  exact ⟨n + k, by rw [steps_add, hn]; exact hk⟩

theorem Reaches.head {s t u : State σ ρ} (h : step S limit s = some t)
    (h' : Reaches S limit t u) : Reaches S limit s u := by
  obtain ⟨n, hn⟩ := h'
  exact ⟨n + 1, by rw [steps, h]; exact hn⟩

/-! ## Computations -/

variable (S limit)

/-- With some frames in front of whatever waits, the machine carries out a
computation. -/
def Computes (c : Control ρ) (frames : List (Frame ρ)) (x : Eval σ Value) : Prop :=
  ∀ stack m, Reaches S limit ⟨c, frames ++ stack, m⟩
    ⟨.answer (Eval.runFrom m x).1, stack, (Eval.runFrom m x).2⟩

variable {S limit}

namespace Computes

variable {c d : Control ρ} {frame : Frame ρ} {frames k : List (Frame ρ)}
  {x : Eval σ Value}

theorem answer (v : Value) : Computes S limit (.answer (.ok v)) [] (pure v) :=
  fun _ _ => .refl _

theorem failure (e : Error) : Computes S limit (.answer (.error e)) [] (throw e) :=
  fun _ _ => .refl _

theorem failure_past (hpass : ∀ e, pass S frame e = e) (e : Error) :
    Computes S limit (.answer (.error e)) [frame] (throw e) := by
  intro stack m
  have hstep : step S limit ⟨.answer (.error e), frame :: stack, m⟩ =
      some ⟨.answer (.error e), stack, m⟩ := by
    rw [step, hpass]
  exact .head hstep (.refl _)

/-- A step that leaves memory as it is. -/
theorem step (hstep : ∀ stack m, Machine.step S limit ⟨c, frames ++ stack, m⟩ =
      some ⟨d, k ++ stack, m⟩)
    (h : Computes S limit d k x) : Computes S limit c frames x :=
  fun stack m => .head (hstep stack m) (h stack m)

/-- A frame that goes on at once with what it waited for. -/
theorem resumed {v : Value} (hresume : ∀ stack m, resume S v stack m frame =
      ⟨d, k ++ stack, m⟩)
    (h : Computes S limit d k x) : Computes S limit (.answer (.ok v)) [frame] x :=
  .step (fun stack m => congrArg some (hresume stack m)) h

/-- A step that carries out a computation itself. -/
theorem after {y : Eval σ α} {next : α → Control ρ} {g : α → Eval σ Value}
    (hstep : ∀ stack m, Machine.step S limit ⟨c, frames ++ stack, m⟩ =
      some (Machine.after y next (k ++ stack) m))
    (hfailure : ∀ e, Computes S limit (.answer (.error e)) k (throw e))
    (hnext : ∀ a, Computes S limit (next a) k (g a)) :
    Computes S limit c frames (y >>= g) := by
  intro stack m
  refine .head (hstep stack m) ?_
  rw [Machine.after, Eval.runFrom_bind]
  rcases Eval.runFrom m y with ⟨e | a, n⟩
  · exact hfailure e stack n
  · exact hnext a stack n

/-- An evaluation whose value a frame waits for. -/
theorem bind {f : Value → Eval σ Value} (hpass : ∀ e, pass S frame e = e)
    (h : Computes S limit c [] x) (hf : ∀ v, Computes S limit (.answer (.ok v)) [frame] (f v)) :
    Computes S limit c [frame] (x >>= f) := by
  intro stack m
  have hx := h (frame :: stack) m
  rw [Eval.runFrom_bind]
  generalize Eval.runFrom m x = r at hx ⊢
  obtain ⟨e | v, n⟩ := r
  · exact hx.trans (failure_past hpass e stack n)
  · exact hx.trans (hf v stack n)

/-- The evaluation of a body, on whose errors the call has a say. -/
theorem call {body : Value} (h : Computes S limit c [] x) :
    Computes S limit c [.call body] (tryCatch x fun e => throw (S.leave body e)) := by
  intro stack m
  have hx := h (.call body :: stack) m
  rw [Eval.runFrom_tryCatch]
  generalize Eval.runFrom m x = r at hx ⊢
  obtain ⟨e | v, n⟩ := r
  · exact hx.trans (.head rfl (.refl _))
  · exact hx.trans (.head rfl (.refl _))

end Computes

/-! ## Rows of expressions and calls -/

section

variable {ev : ρ → Value → Eval σ Value} {depth : Nat} {env : ρ}

theorem sequence_computes (hev : ∀ e, Computes S limit (.eval depth env e) [] (ev env e))
    (body : List Value) :
    Computes S limit (.sequence depth env body) [] (Scoping.evalSequence (ev env) body) := by
  induction body with
  | nil => exact .step (fun _ _ => rfl) (.failure _)
  | cons expr rest ih =>
      cases rest with
      | nil => exact .step (fun _ _ => rfl) (hev expr)
      | cons expr' rest =>
          refine .step (k := [.sequence depth env (expr' :: rest)]) (fun _ _ => rfl) ?_
          exact .bind (fun _ => rfl) (hev expr) fun v => .step (fun _ _ => rfl) ih

theorem clauses_computes (hev : ∀ e, Computes S limit (.eval depth env e) [] (ev env e))
    (clauses : List Value) :
    Computes S limit (.clauses depth env clauses) [] (Scoping.evalClauses (ev env) clauses) := by
  induction clauses with
  | nil => exact .step (fun _ _ => rfl) (.answer _)
  | cons clause rest ih =>
      rw [Scoping.evalClauses]
      cases hclause : Form.clause clause with
      | error e =>
          refine .step (k := []) (fun stack m => ?_) (.failure e)
          rw [Machine.step, hclause]
      | ok parts =>
          obtain ⟨test, body⟩ := parts
          have hresume : ∀ v, Computes S limit (.answer (.ok v)) [.clause depth env body rest]
              (if v.isTruthy then
                if body.isEmpty then return v else Scoping.evalSequence (ev env) body
              else Scoping.evalClauses (ev env) rest) := by
            intro v
            by_cases hv : v.isTruthy = true
            · rw [if_pos hv]
              by_cases hbody : body.isEmpty = true
              · rw [if_pos hbody]
                exact .resumed (k := []) (fun _ _ => (if_pos hv).trans (if_pos hbody))
                  (.answer v)
              · rw [if_neg hbody]
                exact .resumed (k := []) (fun _ _ => (if_pos hv).trans (if_neg hbody))
                  (sequence_computes hev body)
            · rw [if_neg hv]
              exact .resumed (k := []) (fun _ _ => if_neg hv) ih
          by_cases htest : Form.isElse test = true
          · simp only [Eval.ofExcept, pure_bind, htest, if_true]
            refine .step (k := [.clause depth env body rest]) (fun stack m => ?_)
              (hresume (.bool true))
            rw [Machine.step, hclause]
            exact if_pos htest
          · simp only [Eval.ofExcept, pure_bind, htest, Bool.false_eq_true, if_false]
            refine .step (k := [.clause depth env body rest]) (fun stack m => ?_)
              (.bind (fun _ => rfl) (hev test) hresume)
            rw [Machine.step, hclause]
            exact if_neg htest

theorem rows_computes {f : Value} {calls : List (List Value)}
    (h : ∀ args ∈ calls, Computes S limit (.apply depth f args) [] (S.apply ev f args))
    (done : List Value) :
    Computes S limit (.rows depth f done calls) []
      (do
        let vs ← calls.mapM (S.apply ev f)
        Eval.list (done ++ vs)) := by
  induction calls generalizing done with
  | nil =>
      have hlist : Computes S limit (.rows depth f done []) [] (Eval.list done >>= pure) :=
        .after (fun _ _ => rfl) .failure .answer
      rw [bind_pure] at hlist
      rw [List.mapM_nil, pure_bind, List.append_nil]
      exact hlist
  | cons args rest ih =>
      obtain ⟨hargs, hrest⟩ := List.forall_mem_cons.1 h
      rw [List.mapM_cons, bind_assoc]
      refine .step (k := [.row depth f done rest]) (fun _ _ => rfl) ?_
      refine .bind (fun _ => rfl) hargs fun v => ?_
      have hlater := ih hrest (done ++ [v])
      simp only [List.append_assoc, List.singleton_append] at hlater
      simp only [bind_assoc, pure_bind]
      exact .step (k := []) (fun _ _ => rfl) hlater

/-! ## Calls -/

theorem enterCall_created {f : Value} (hf : ∀ p, f ≠ .primitive p) (args : List Value)
    (stack : List (Frame ρ)) (m : Memory σ) :
    enterCall S depth stack m f args =
      match Eval.runFrom m (S.enter f args) with
      | (.ok (env, body), m) => ⟨.eval depth env body, .call body :: stack, m⟩
      | (.error e, m) => ⟨.answer (.error e), stack, m⟩ := by
  cases f with
  | primitive p => exact absurd rfl (hf p)
  | _ => rfl

theorem primitive_computes {p : Primitive} {args : List Value}
    (hcalls : ∀ f calls, p.call args = .ok (.each f calls) →
      ∀ c ∈ calls, Computes S limit (.apply depth f c) [] (S.apply ev f c)) :
    Computes S limit (.apply depth (.primitive p) args) [] (S.apply ev (.primitive p) args) := by
  have hstep : ∀ stack m, Machine.step S limit ⟨.apply depth (.primitive p) args, stack, m⟩ =
      some (enterCall S depth stack m (.primitive p) args) := fun _ _ => rfl
  rw [Scoping.apply_primitive]
  cases hcall : p.call args with
  | error e =>
      refine .step (k := []) (fun stack m => ?_) (.failure e)
      rw [List.nil_append, hstep, enterCall, hcall]
  | ok outcome =>
      rw [Eval.ofExcept, pure_bind]
      cases outcome with
      | value v =>
          refine .step (k := []) (fun stack m => ?_) (.answer v)
          rw [List.nil_append, hstep, enterCall, hcall]
      | fresh items =>
          rw [Scoping.perform, ← bind_pure (Eval.list items)]
          refine .after (k := []) (fun stack m => ?_) .failure .answer
          rw [List.nil_append, hstep, enterCall, hcall]
      | each f calls =>
          refine .step (k := []) (d := .rows depth f [] calls) (fun stack m => ?_)
            (rows_computes (hcalls f calls hcall) [])
          rw [List.nil_append, hstep, enterCall, hcall]

theorem created_computes (hev : ∀ env e, Computes S limit (.eval depth env e) [] (ev env e))
    {f : Value} (hf : ∀ p, f ≠ .primitive p) (args : List Value) :
    Computes S limit (.apply depth f args) [] (S.apply ev f args) := by
  rw [Scoping.apply_created S ev args hf]
  intro stack m
  refine .head (congrArg some (enterCall_created hf args stack m)) ?_
  rw [Eval.runFrom_bind]
  rcases Eval.runFrom m (S.enter f args) with ⟨e | ⟨env, body⟩, n⟩
  · exact .refl _
  · exact Computes.call (hev env body) stack n

/-- A call comes to an end if evaluations at its depth do. The calls that `map`
asks for have smaller arguments, which is what the induction is on. -/
theorem apply_computes (hev : ∀ env e, Computes S limit (.eval depth env e) [] (ev env e))
    (f : Value) (args : List Value) :
    Computes S limit (.apply depth f args) [] (S.apply ev f args) := by
  induction hn : sizeOf args using Nat.strongRecOn generalizing f args with
  | ind n ih =>
      by_cases hp : ∃ p, f = .primitive p
      · obtain ⟨p, rfl⟩ := hp
        refine primitive_computes fun g calls hcall c hc => ?_
        exact ih (sizeOf c) (hn ▸ Primitive.sizeOf_lt_of_call_eq_each hcall hc) g c rfl
      · exact created_computes hev (fun p h => hp ⟨p, h⟩) args

theorem operands_computes (hev : ∀ env e, Computes S limit (.eval depth env e) [] (ev env e))
    (f : Value) (done rest : List Value) :
    Computes S limit (.operands depth env f done rest) []
      (do
        let args ← rest.mapM (ev env)
        S.apply ev f (done ++ args)) := by
  induction rest generalizing done with
  | nil =>
      rw [List.mapM_nil, pure_bind, List.append_nil]
      exact .step (fun _ _ => rfl) (apply_computes hev f done)
  | cons expr rest ih =>
      rw [List.mapM_cons, bind_assoc]
      refine .step (k := [.operand depth env f done rest]) (fun _ _ => rfl) ?_
      refine .bind (fun _ => rfl) (hev env expr) fun v => ?_
      have hlater := ih (done ++ [v])
      simp only [List.append_assoc, List.singleton_append] at hlater
      simp only [bind_assoc, pure_bind]
      exact .step (k := []) (fun _ _ => rfl) hlater

/-! ## Forms and lists -/

theorem form_computes (hev : ∀ env e, Computes S limit (.eval depth env e) [] (ev env e))
    {c : Control ρ} {f : Form} (hc : ∀ stack m, Machine.step S limit ⟨c, stack, m⟩ =
      some (enterForm S depth env stack m f)) :
    Computes S limit c [] (S.evalForm (ev env) env f) := by
  have hdone : ∀ _ : Unit, Computes S limit (.answer (.ok .unspecified)) []
      (pure .unspecified : Eval σ Value) := fun _ => .answer _
  cases f with
  | quote datum => exact .step (k := []) hc (.answer datum)
  | define name expr =>
      refine .step (k := [.define env name]) hc ?_
      exact .bind (fun _ => rfl) (hev env expr) fun v =>
        .after (k := []) (fun _ _ => rfl) .failure hdone
  | defineProcedure name params body =>
      rw [Scoping.evalForm, ← bind_assoc]
      refine .after (k := [.define env name]) hc (.failure_past fun _ => rfl) fun g => ?_
      exact .after (k := []) (fun _ _ => rfl) .failure hdone
  | assign name expr =>
      refine .step (k := [.assign env name]) hc ?_
      exact .bind (fun _ => rfl) (hev env expr) fun v =>
        .after (k := []) (fun _ _ => rfl) .failure hdone
  | ite test yes no =>
      refine .step (k := [.branch depth env yes no]) hc ?_
      refine .bind (fun _ => rfl) (hev env test) fun v => ?_
      by_cases hv : v.isTruthy = true
      · rw [if_pos hv]
        exact .resumed (k := []) (fun _ _ => if_pos hv) (hev env yes)
      · rw [if_neg hv]
        cases no with
        | some no => exact .resumed (k := []) (fun _ _ => if_neg hv) (hev env no)
        | none => exact .resumed (k := []) (fun _ _ => if_neg hv) (hdone ())
  | cond clauses => exact .step (k := []) hc (clauses_computes (hev env) clauses)
  | sequence body => exact .step (k := []) hc (sequence_computes (hev env) body)
  | bind pairs body =>
      exact .after (k := []) hc .failure fun body => sequence_computes (hev env) body
  | lambda params body =>
      rw [Scoping.evalForm, ← bind_pure (S.procedure env params body)]
      exact .after (k := []) hc .failure .answer

theorem list_computes (hev : ∀ env e, Computes S limit (.eval depth env e) [] (ev env e))
    {c : Control ρ} {items : List Value} (hc : ∀ stack m, Machine.step S limit ⟨c, stack, m⟩ =
      some (enterList S depth env stack m items)) :
    Computes S limit c [] (S.evalList ev env items) := by
  cases items with
  | nil => exact .step (k := []) hc (.failure _)
  | cons head rest =>
      cases hk : Form.keyword? head with
      | some keyword =>
          rw [Scoping.evalList_form S ev env hk]
          cases hparse : Form.parse keyword rest with
          | error e =>
              refine .step (k := []) (fun stack m => ?_) (.failure e)
              rw [List.nil_append, hc, enterList, hk]
              dsimp only
              rw [hparse]
          | ok form =>
              refine form_computes hev fun stack m => ?_
              rw [hc, enterList, hk]
              dsimp only
              rw [hparse]
      | none =>
          rw [Scoping.evalList_combination S ev env hk]
          refine .step (k := [.operator depth env rest]) (fun stack m => ?_)
            (.bind (fun _ => rfl) (hev env head) fun f =>
              .step (k := []) (fun _ _ => rfl) (operands_computes hev f [] rest))
          rw [List.nil_append, hc, enterList, hk]
          rfl

end

/-! ## Evaluations -/

/-- The machine evaluates an expression at a depth as the evaluator does with the
levels that are left there. -/
theorem eval_computes (left : Nat) {depth : Nat} (hlimit : depth + left = limit) (env : ρ)
    (e : Value) : Computes S limit (.eval depth env e) [] (S.eval limit left env e) := by
  induction left generalizing depth env e with
  | zero =>
      have hle : limit ≤ depth := Nat.le_of_eq hlimit.symm
      cases e with
      | symbol name =>
          rw [Scoping.eval_symbol_zero]
          exact .step (k := []) (fun _ _ => congrArg some (if_pos hle)) (.failure _)
      | list id items =>
          rw [Scoping.eval_list_zero]
          exact .step (k := []) (fun _ _ => congrArg some (if_pos hle)) (.failure _)
      | _ =>
          rw [Scoping.eval_of_isSelfEvaluating S limit _ _ rfl]
          exact .step (k := []) (fun _ _ => rfl) (.answer _)
  | succ left ih =>
      have hlt : ¬limit ≤ depth := by omega
      cases e with
      | symbol name =>
          rw [Scoping.eval_symbol_succ, ← bind_pure (S.resolve env name)]
          exact .after (k := []) (fun _ _ => congrArg some (if_neg hlt)) .failure .answer
      | list id items =>
          rw [Scoping.eval_list_succ]
          exact list_computes (fun env e => ih (by omega) env e)
            fun _ _ => congrArg some (if_neg hlt)
      | _ =>
          rw [Scoping.eval_of_isSelfEvaluating S limit _ _ rfl]
          exact .step (k := []) (fun _ _ => rfl) (.answer _)

theorem Computes.halts {c : Control ρ} {x : Eval σ Value} (h : Computes S limit c [] x)
    (m : Memory σ) : Halts S limit ⟨c, [], m⟩ (Eval.runFrom m x) := by
  obtain ⟨n, hn⟩ := h [] m
  refine ⟨n, _, hn, ?_, rfl, rfl⟩
  rw [Machine.step]

theorem evaluate_halts (env : ρ) (expr : Value) (m : Memory σ) :
    Halts S limit ⟨.eval 0 env expr, [], m⟩ (Eval.runFrom m (S.evaluate limit env expr)) :=
  (eval_computes limit (Nat.zero_add limit) env expr).halts m

theorem applyWithin_halts (f : Value) (args : List Value) (m : Memory σ) :
    Halts S limit ⟨.apply 0 f args, [], m⟩ (Eval.runFrom m (S.applyWithin limit f args)) :=
  (apply_computes (eval_computes limit (Nat.zero_add limit)) f args).halts m

/-- Under both ways of binding names, from every place and every memory and
whatever the limit, the evaluation of every expression comes to an end, and so
does every call of every value with any arguments, `map` of `map` included. The
machine then has the answer of the evaluator, value or error, and its memory. -/
theorem evaluation_halts (limit : Nat) :
    (∀ env expr m, Halts Scoping.lexical limit ⟨.eval 0 env expr, [], m⟩
      (Eval.runFrom m (Scoping.lexical.evaluate limit env expr))) ∧
    (∀ expr m, Halts Scoping.textual limit ⟨.eval 0 () expr, [], m⟩
      (Eval.runFrom m (Scoping.textual.evaluate limit () expr))) ∧
    (∀ f args m, Halts Scoping.lexical limit ⟨.apply 0 f args, [], m⟩
      (Eval.runFrom m (Scoping.lexical.applyWithin limit f args))) ∧
    (∀ f args m, Halts Scoping.textual limit ⟨.apply 0 f args, [], m⟩
      (Eval.runFrom m (Scoping.textual.applyWithin limit f args))) :=
  ⟨evaluate_halts, evaluate_halts (), applyWithin_halts, applyWithin_halts⟩

end TwinScheme.Machine

import TwinScheme.Evaluator.Apply

/-!
# Evaluation

One evaluator for every scoping discipline. Values other than symbols and lists
evaluate to themselves. A symbol is looked up. A list is a special form if its
head is a keyword, and otherwise a combination: the head is evaluated, then the
operands from left to right, then the procedure is called.

Evaluations nest, and the nesting is bounded. The recursion is on the number of
levels that are left; looking up a symbol and evaluating a list take one, and
where none is left they fail instead. The limit itself is carried along for the
report of that failure only. Each of the functions below takes the evaluator of
the next level as an argument, so none of them knows about levels.
-/

namespace TwinScheme.Scoping

variable {σ ρ : Type}

/-- Evaluates expressions in order; the result is that of the last. -/
def evalSequence (eval : Value → Eval σ Value) : List Value → Eval σ Value
  | [] => throw (.eval .emptyBegin none)
  | [expr] => eval expr
  | expr :: rest => do
    let _ ← eval expr
    evalSequence eval rest

/-- Takes the first clause whose test holds. A clause without a body gives the
value of its test; without such a clause the result is unspecified. -/
def evalClauses (eval : Value → Eval σ Value) : List Value → Eval σ Value
  | [] => return .unspecified
  | clause :: rest => do
    let (test, body) ← Eval.ofExcept (Form.clause clause)
    let outcome ← if Form.isElse test then pure (.bool true) else eval test
    if outcome.isTruthy then
      if body.isEmpty then return outcome else evalSequence eval body
    else evalClauses eval rest

/-- Evaluates a special form. -/
def evalForm (S : Scoping σ ρ) (eval : Value → Eval σ Value) (env : ρ) : Form → Eval σ Value
  | .quote datum => return datum
  | .define name expr => do
    let v ← eval expr
    Eval.rebind fun bound => S.define bound env name v
    return .unspecified
  | .defineProcedure name params body => do
    let body ← Eval.supply (Form.single body)
    let f ← S.procedure env (params.map .symbol) body
    Eval.rebind fun bound => S.define bound env name f
    return .unspecified
  | .assign name expr => do
    let v ← eval expr
    S.assign env name v
    return .unspecified
  | .ite test yes no => do
    if (← eval test).isTruthy then eval yes
    else
      match no with
      | some no => eval no
      | none => return .unspecified
  | .cond clauses => evalClauses eval clauses
  | .sequence body => evalSequence eval body
  | .bind pairs body => do evalSequence eval (← S.expand pairs body)
  | .lambda params body => S.procedure env params body

/-- Evaluates the elements of a list as an expression. -/
def evalList (S : Scoping σ ρ) (eval : ρ → Value → Eval σ Value) (env : ρ) :
    List Value → Eval σ Value
  | [] => throw (.eval .emptyCombination none)
  | head :: rest =>
    match Form.keyword? head with
    | some keyword => do
      S.evalForm (eval env) env (← Eval.ofExcept (Form.parse keyword rest))
    | none => do
      let f ← eval env head
      let args ← rest.mapM (eval env)
      S.apply eval f args

/-- Evaluates an expression with some levels left. -/
def eval (S : Scoping σ ρ) (limit : Nat) : Nat → ρ → Value → Eval σ Value
  | left, env, expr =>
    match expr, left with
    | .symbol _, 0 | .list _ _, 0 => throw (.eval (.tooDeep limit) none)
    | .symbol name, _ + 1 => S.resolve env name
    | .list _ items, left + 1 => S.evalList (S.eval limit left) env items
    | v, _ => return v

/-- Evaluates an expression with a given limit on the nesting. -/
def evaluate (S : Scoping σ ρ) (limit : Nat) (env : ρ) (expr : Value) : Eval σ Value :=
  S.eval limit limit env expr

/-- Calls a procedure from outside any evaluation. -/
def applyWithin (S : Scoping σ ρ) (limit : Nat) (f : Value) (args : List Value) : Eval σ Value :=
  S.apply (S.eval limit limit) f args

/-- Evaluations may nest this deep unless a caller says otherwise. -/
def defaultDepth : Nat := 1000

end TwinScheme.Scoping

import TwinScheme.Proofs.Evaluator.Running

/-!
# Evaluation in single steps

The evaluator is defined by recursion on the levels that are left, and a
definition by recursion is total because it was accepted. Whether evaluation
comes to an end is a question about something else: about an evaluation that
counts its nesting upwards, looks at the limit when it goes a level deeper, and
otherwise goes on for as long as there is something to do.

That is the machine below. A state is what is being worked on, what waits for
its answer, and the memory. A step takes apart one list, looks up one name,
makes one definition, starts one call; no step is defined by recursion on
evaluation, and nothing in a state says how many steps are left.
-/

namespace TwinScheme.Machine

/-- What waits for the answer of an evaluation. Where evaluation goes on after
it, the frame has the depth and the place to go on at. -/
inductive Frame (ρ : Type) where
  | define (env : ρ) (name : String)
  | assign (env : ρ) (name : String)
  | branch (depth : Nat) (env : ρ) (yes : Value) (no : Option Value)
  | clause (depth : Nat) (env : ρ) (body rest : List Value)
  | sequence (depth : Nat) (env : ρ) (rest : List Value)
  | operator (depth : Nat) (env : ρ) (operands : List Value)
  | operand (depth : Nat) (env : ρ) (f : Value) (done rest : List Value)
  /-- A call among those that `map` asks for. -/
  | row (depth : Nat) (f : Value) (done : List Value) (rest : List (List Value))
  /-- The body of a created procedure is being evaluated. -/
  | call (body : Value)

/-- What is being worked on. -/
inductive Control (ρ : Type) where
  | eval (depth : Nat) (env : ρ) (expr : Value)
  | sequence (depth : Nat) (env : ρ) (body : List Value)
  | clauses (depth : Nat) (env : ρ) (clauses : List Value)
  | operands (depth : Nat) (env : ρ) (f : Value) (done rest : List Value)
  | apply (depth : Nat) (f : Value) (args : List Value)
  | rows (depth : Nat) (f : Value) (done : List Value) (rest : List (List Value))
  | answer (result : Except Error Value)

/-- A machine in the middle of an evaluation. -/
structure State (σ ρ : Type) where
  control : Control ρ
  /-- The frame that waits for the next answer comes first. -/
  stack : List (Frame ρ)
  memory : Memory σ

variable {σ ρ α : Type}

/-- Carries out what is no evaluation, and goes on with what comes of it. -/
def after (x : Eval σ α) (next : α → Control ρ) (stack : List (Frame ρ)) (m : Memory σ) :
    State σ ρ :=
  match Eval.runFrom m x with
  | (.ok a, m) => ⟨next a, stack, m⟩
  | (.error e, m) => ⟨.answer (.error e), stack, m⟩

section

variable (S : Scoping σ ρ) (limit : Nat)

/-- Starts on a special form. -/
def enterForm (depth : Nat) (env : ρ) (stack : List (Frame ρ)) (m : Memory σ) :
    Form → State σ ρ
  | .quote datum => ⟨.answer (.ok datum), stack, m⟩
  | .define name expr => ⟨.eval depth env expr, .define env name :: stack, m⟩
  | .defineProcedure name params body =>
    after (do S.procedure env (params.map .symbol) (← Eval.supply (Form.single body)))
      (fun f => .answer (.ok f)) (.define env name :: stack) m
  | .assign name expr => ⟨.eval depth env expr, .assign env name :: stack, m⟩
  | .ite test yes no => ⟨.eval depth env test, .branch depth env yes no :: stack, m⟩
  | .cond clauses => ⟨.clauses depth env clauses, stack, m⟩
  | .sequence body => ⟨.sequence depth env body, stack, m⟩
  | .bind pairs body => after (S.expand pairs body) (.sequence depth env) stack m
  | .lambda params body =>
    after (S.procedure env params body) (fun f => .answer (.ok f)) stack m

/-- Starts on a list, at the depth of what is inside it. -/
def enterList (depth : Nat) (env : ρ) (stack : List (Frame ρ)) (m : Memory σ) :
    List Value → State σ ρ
  | [] => ⟨.answer (.error (.eval .emptyCombination none)), stack, m⟩
  | head :: rest =>
    match Form.keyword? head with
    | some keyword =>
      match Form.parse keyword rest with
      | .ok form => enterForm S depth env stack m form
      | .error e => ⟨.answer (.error e), stack, m⟩
    | none => ⟨.eval depth env head, .operator depth env rest :: stack, m⟩

/-- Starts on an expression. Symbols and lists are a level deeper than what they
stand in, and are refused where the limit is reached. -/
def enter (depth : Nat) (env : ρ) (stack : List (Frame ρ)) (m : Memory σ) : Value → State σ ρ
  | .symbol name =>
    if limit ≤ depth then ⟨.answer (.error (.eval (.tooDeep limit) none)), stack, m⟩
    else after (S.resolve env name) (fun v => .answer (.ok v)) stack m
  | .list _ items =>
    if limit ≤ depth then ⟨.answer (.error (.eval (.tooDeep limit) none)), stack, m⟩
    else enterList S (depth + 1) env stack m items
  | v => ⟨.answer (.ok v), stack, m⟩

/-- Starts on a call. It takes no level. -/
def enterCall (depth : Nat) (stack : List (Frame ρ)) (m : Memory σ) :
    Value → List Value → State σ ρ
  | .primitive p, args =>
    match p.call args with
    | .error e => ⟨.answer (.error e), stack, m⟩
    | .ok (.value v) => ⟨.answer (.ok v), stack, m⟩
    | .ok (.fresh items) => after (Eval.list items) (fun v => .answer (.ok v)) stack m
    | .ok (.each f calls) => ⟨.rows depth f [] calls, stack, m⟩
  | f, args =>
    match Eval.runFrom m (S.enter f args) with
    | (.ok (env, body), m) => ⟨.eval depth env body, .call body :: stack, m⟩
    | (.error e, m) => ⟨.answer (.error e), stack, m⟩

/-- Hands a value to the frame that waits for it. -/
def resume (v : Value) (stack : List (Frame ρ)) (m : Memory σ) : Frame ρ → State σ ρ
  | .define env name =>
    after (Eval.rebind fun bound => S.define bound env name v)
      (fun _ => .answer (.ok .unspecified)) stack m
  | .assign env name => after (S.assign env name v) (fun _ => .answer (.ok .unspecified)) stack m
  | .branch depth env yes no =>
    if v.isTruthy then ⟨.eval depth env yes, stack, m⟩
    else
      match no with
      | some no => ⟨.eval depth env no, stack, m⟩
      | none => ⟨.answer (.ok .unspecified), stack, m⟩
  | .clause depth env body rest =>
    if v.isTruthy then
      if body.isEmpty then ⟨.answer (.ok v), stack, m⟩ else ⟨.sequence depth env body, stack, m⟩
    else ⟨.clauses depth env rest, stack, m⟩
  | .sequence depth env rest => ⟨.sequence depth env rest, stack, m⟩
  | .operator depth env operands => ⟨.operands depth env v [] operands, stack, m⟩
  | .operand depth env f done rest => ⟨.operands depth env f (done ++ [v]) rest, stack, m⟩
  | .row depth f done rest => ⟨.rows depth f (done ++ [v]) rest, stack, m⟩
  | .call _ => ⟨.answer (.ok v), stack, m⟩

/-- An error on its way past a frame. -/
def pass : Frame ρ → Error → Error
  | .call body, e => S.leave body e
  | _, e => e

/-- The next state, if there is one: a machine with an answer that nothing waits
for is done. -/
def step : State σ ρ → Option (State σ ρ)
  | ⟨.eval depth env expr, stack, m⟩ => some (enter S limit depth env stack m expr)
  | ⟨.sequence depth env body, stack, m⟩ =>
    match body with
    | [] => some ⟨.answer (.error (.eval .emptyBegin none)), stack, m⟩
    | [expr] => some ⟨.eval depth env expr, stack, m⟩
    | expr :: rest => some ⟨.eval depth env expr, .sequence depth env rest :: stack, m⟩
  | ⟨.clauses depth env clauses, stack, m⟩ =>
    match clauses with
    | [] => some ⟨.answer (.ok .unspecified), stack, m⟩
    | clause :: rest =>
      match Form.clause clause with
      | .error e => some ⟨.answer (.error e), stack, m⟩
      | .ok (test, body) =>
        if Form.isElse test then
          some ⟨.answer (.ok (.bool true)), .clause depth env body rest :: stack, m⟩
        else some ⟨.eval depth env test, .clause depth env body rest :: stack, m⟩
  | ⟨.operands depth env f done rest, stack, m⟩ =>
    match rest with
    | [] => some ⟨.apply depth f done, stack, m⟩
    | expr :: rest => some ⟨.eval depth env expr, .operand depth env f done rest :: stack, m⟩
  | ⟨.apply depth f args, stack, m⟩ => some (enterCall S depth stack m f args)
  | ⟨.rows depth f done rest, stack, m⟩ =>
    match rest with
    | [] => some (after (Eval.list done) (fun v => .answer (.ok v)) stack m)
    | args :: rest => some ⟨.apply depth f args, .row depth f done rest :: stack, m⟩
  | ⟨.answer _, [], _⟩ => none
  | ⟨.answer (.ok v), frame :: stack, m⟩ => some (resume S v stack m frame)
  | ⟨.answer (.error e), frame :: stack, m⟩ => some ⟨.answer (.error (pass S frame e)), stack, m⟩

/-- The state after so many steps, if there are so many. -/
def steps : Nat → State σ ρ → Option (State σ ρ)
  | 0, s => some s
  | n + 1, s => (step S limit s).bind (steps n)

/-- Whether a machine gets from one state to another. -/
def Reaches (s t : State σ ρ) : Prop :=
  ∃ n, steps S limit n s = some t

/-- Whether a machine comes to rest, after finitely many steps, with a result and
a memory. -/
def Halts (s : State σ ρ) (result : Except Error Value × Memory σ) : Prop :=
  ∃ n t, steps S limit n s = some t ∧ step S limit t = none ∧
    t.control = .answer result.1 ∧ t.memory = result.2

end

end TwinScheme.Machine

import Mathlib.Data.List.Nodup
import TwinScheme.Proofs.Evaluator.Forms

/-!
# Hygienic programs

Replacing names in text is not the same as binding them. The two ways of
binding names part company wherever a program lets the difference show, and
`Hygienic` says which programs do not. Every condition is there because a
program without it tells the two apart:

* a parameter that is bound again inside its scope is replaced there as well,
  binder included, so an inner signature must not repeat an outer name;
* `define` inside a procedure or a `let` makes a local binding for one
  discipline and a global one for the other, so it stands at the outermost
  level only;
* assigning to a parameter assigns to the expression that replaced it;
* `let` replaces its binders by expressions, not by their values. An expression
  that is evaluated as often as it was copied must not care how often or when
  that is: it is a constant, a quotation, a name bound around the `let`, or a
  name whose meaning is settled;
* keywords and `else` are recognised by name, and `quote` is what substitution
  stops at, so none of them is bound or assigned to;
* a clause of a `cond` that is a bare parameter is replaced by something that
  may look like a clause.

The names of a `Kept` keep the first meaning they get: no binder, definition or
assignment of the program mentions them, except for one definition that cannot
fail of a name that means nothing yet. Those of the names that have their
meaning are settled. Identities play no part in any of this.
-/

namespace TwinScheme

/-- Where an expression stands: at the outermost level of a program, or under
some binders. -/
inductive Scope where
  | outermost
  | inside (binders : List String)

/-- The names bound around a place. -/
def Scope.binders : Scope → List String
  | outermost => []
  | inside binders => binders

/-- The place under some more binders. -/
def Scope.enter (s : Scope) (params : List String) : Scope :=
  .inside (params ++ s.binders)

/-- The names that a program leaves alone once they mean something, and those of
them that do. -/
structure Kept where
  names : List String
  settled : List String

/-- A name that a program may bind, define or assign to. -/
structure Binder (kept : List String) (name : String) : Prop extends Plain name where
  not_kept : name ∉ kept

/-- The names of a signature: distinct, and new where they are bound. -/
structure Scope.Admits (kept : List String) (s : Scope) (params : List String) : Prop where
  nodup : params.Nodup
  binder : ∀ x ∈ params, Binder kept x
  new : ∀ x ∈ params, x ∉ s.binders

theorem Scope.Admits.plain {kept params : List String} {s : Scope} (h : s.Admits kept params) :
    ∀ x ∈ params, Plain x :=
  fun x hx => (h.binder x hx).toPlain

/-- Expressions that have one value, whenever and however often they are
evaluated. -/
inductive Settled (kept : Kept) (s : Scope) : Value → Prop
  | value {v} : v.isSelfEvaluating = true → Settled kept s v
  | quotation (id datum) : Settled kept s (Keyword.quote.form id [datum])
  | bound {x} : x ∈ s.binders → Settled kept s (.symbol x)
  | name {x} : x ∈ kept.settled → Settled kept s (.symbol x)

/-- Operands that a keyword refuses for their number, or because the target of
an assignment or definition is no name. -/
def Misfit (s : Scope) : Keyword → List Value → Prop
  | .lambda, operands => operands.length ≠ 2
  | .letForm, operands => operands.length < 2
  | .set, operands => ∀ name expr, operands ≠ [.symbol name, expr]
  | .define, operands => s = .outermost ∧ (∀ name expr, operands ≠ [.symbol name, expr]) ∧
      ∀ id items b body, operands ≠ .list id items :: b :: body
  | _, _ => False

/-- Expressions that the two disciplines agree on. -/
inductive Hygienic (kept : Kept) : Scope → Value → Prop
  | value {s v} : v.isSelfEvaluating = true → Hygienic kept s v
  | symbol {s} (name) : Hygienic kept s (.symbol name)
  | empty {s} (id) : Hygienic kept s (.list id [])
  | quote {s} (id operands) : Hygienic kept s (Keyword.quote.form id operands)
  | define {id name expr} : Binder kept.names name → Hygienic kept .outermost expr →
      Hygienic kept .outermost (Keyword.define.form id [.symbol name, expr])
  | defineProcedure {id j name params body} : Binder kept.names name → body ≠ [] →
      Scope.outermost.Admits kept.names params →
      (∀ e ∈ body, Hygienic kept (Scope.outermost.enter params) e) →
      Hygienic kept .outermost
        (Keyword.define.form id (.list j (.symbol name :: params.map .symbol) :: body))
  | assign {s id name expr} : Binder kept.names name → name ∉ s.binders → Hygienic kept s expr →
      Hygienic kept s (Keyword.set.form id [.symbol name, expr])
  | ite {s id operands} : (∀ e ∈ operands, Hygienic kept s e) →
      Hygienic kept s (Keyword.ite.form id operands)
  /-- A clause is hygienic if what it consists of is; whether it is a clause at
  all shows when its turn comes. -/
  | cond {s id clauses} :
      (∀ j items, .list j items ∈ clauses → ∀ e ∈ items, Hygienic kept s e) →
      (∀ name, .symbol name ∈ clauses → name ∉ s.binders) →
      Hygienic kept s (Keyword.cond.form id clauses)
  | sequence {s id body} : (∀ e ∈ body, Hygienic kept s e) →
      Hygienic kept s (Keyword.begin.form id body)
  | bind {s id j body} {pairs : List LetPair} : body ≠ [] →
      s.Admits kept.names (pairs.map (·.name)) → (∀ p ∈ pairs, Settled kept s p.expr) →
      (∀ e ∈ body, Hygienic kept (s.enter (pairs.map (·.name))) e) →
      Hygienic kept s (Keyword.letForm.form id (.list j (pairs.map (·.toValue)) :: body))
  | lambda {s id j params body} : s.Admits kept.names params → Hygienic kept (s.enter params) body →
      Hygienic kept s (Keyword.lambda.form id [.list j (params.map .symbol), body])
  | misfit {s k id operands} : Misfit s k operands → Hygienic kept s (k.form id operands)
  | combination {s id head rest} : Form.keyword? head = none →
      (∀ e ∈ head :: rest, Hygienic kept s e) → Hygienic kept s (.list id (head :: rest))

/-- A datum whose every reading as an expression is hygienic. -/
def Datum.Hygienic (kept : Kept) (d : Datum) : Prop :=
  ∀ next, TwinScheme.Hygienic kept .outermost (d.toValue next).1

/-! ## Programs -/

/-- The names of a program before any of its forms: settled if they have a
meaning. -/
def Kept.start (names : List String) : Kept :=
  ⟨names, names.filter fun x => (builtin? x).isSome⟩

/-- One more name has its meaning. -/
def Kept.settle (kept : Kept) (name : String) : Kept :=
  ⟨kept.names, name :: kept.settled⟩

/-- Definitions that cannot fail: of a settled value, or of a procedure. -/
inductive Definite (kept : Kept) (name : String) : Value → Prop
  | settled {id expr} : Settled kept .outermost expr →
      Definite kept name (Keyword.define.form id [.symbol name, expr])
  | lambda {id i j params body} : Scope.outermost.Admits kept.names params →
      Hygienic kept (Scope.outermost.enter params) body →
      Definite kept name (Keyword.define.form id
        [.symbol name, Keyword.lambda.form i [.list j (params.map .symbol), body]])
  | procedure {id j params body} : body ≠ [] → Scope.outermost.Admits kept.names params →
      (∀ e ∈ body, Hygienic kept (Scope.outermost.enter params) e) →
      Definite kept name
        (Keyword.define.form id (.list j (.symbol name :: params.map .symbol) :: body))

/-- A form that settles what a name means. -/
structure Datum.Settles (kept : Kept) (name : String) (d : Datum) : Prop where
  plain : Plain name
  mem : name ∈ kept.names
  new : name ∉ kept.settled
  definite : ∀ next, Definite kept name (d.toValue next).1

/-- Forms that are hygienic one after another. -/
inductive HygienicFrom : Kept → List Datum → Prop
  | nil {kept} : HygienicFrom kept []
  | form {kept d forms} : d.Hygienic kept → HygienicFrom kept forms →
      HygienicFrom kept (d :: forms)
  | settle {kept name d forms} : d.Settles kept name → HygienicFrom (kept.settle name) forms →
      HygienicFrom kept (d :: forms)

/-! ## Settling a name -/

theorem Settled.settle {kept : Kept} {name : String} {s : Scope} {e : Value}
    (h : Settled kept s e) : Settled (kept.settle name) s e := by
  cases h with
  | value hself => exact .value hself
  | quotation id datum => exact .quotation id datum
  | bound hx => exact .bound hx
  | name hx => exact .name (List.mem_cons_of_mem _ hx)

/-- What was hygienic stays so when one more name is settled. -/
theorem Hygienic.settle {kept : Kept} {name : String} {s : Scope} {e : Value}
    (h : Hygienic kept s e) : Hygienic (kept.settle name) s e := by
  induction h with
  | value hself => exact .value hself
  | symbol name => exact .symbol name
  | empty id => exact .empty id
  | quote id operands => exact .quote id operands
  | define hname _ ih => exact .define hname ih
  | defineProcedure hname hbody hparams _ ih => exact .defineProcedure hname hbody hparams ih
  | assign hname hfree _ ih => exact .assign hname hfree ih
  | ite _ ih => exact .ite ih
  | cond _ hbare ih => exact .cond ih hbare
  | sequence _ ih => exact .sequence ih
  | bind hbody hparams hsettled _ ih =>
      exact .bind hbody hparams (fun p hp => (hsettled p hp).settle) ih
  | lambda hparams _ ih => exact .lambda hparams ih
  | misfit hfit => exact .misfit hfit
  | combination hhead _ ih => exact .combination hhead ih

end TwinScheme

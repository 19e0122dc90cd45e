import TwinScheme.Proofs.Evaluator.Correspondence
import TwinScheme.Proofs.Evaluator.Failures
import TwinScheme.Proofs.Evaluator.Supply

/-!
# What occurs in a value

A value holds other values: a list its elements, a closure its body, which is an
expression and may have values standing in it. `Occurs` is holding at any depth.
What matters of the closures in a value is the environments they captured, since
through them whoever has the value has those frames as well; so most of what is
said about values below is said of the closures that occur in them.

A `lambda` value is no procedure of lexical scoping. Nothing opens it, and
nothing counts as occurring in it.
-/

namespace TwinScheme

open List (Forall₂)

namespace Value

/-- A value occurs in itself, in lists and in bodies of closures. -/
inductive Occurs (v : Value) : Value → Prop
  | self : Occurs v v
  | item {id items w} : w ∈ items → Occurs v w → Occurs v (.list id items)
  | body {id params body env} : Occurs v body → Occurs v (.closure id params body env)

/-- All closures in a value are of a certain kind. -/
def Closures (P : List String → Value → Environment → Prop) (v : Value) : Prop :=
  ∀ id params body env, Occurs (.closure id params body env) v → P params body env

namespace Closures

variable {P Q : List String → Value → Environment → Prop} {v : Value}

theorem mono (h : Closures P v) (hPQ : ∀ params body env, P params body env → Q params body env) :
    Closures Q v :=
  fun id params body env ho => hPQ _ _ _ (h id params body env ho)

theorem list_iff {id : Identity} {items : List Value} :
    Closures P (.list id items) ↔ ∀ w ∈ items, Closures P w := by
  constructor
  · intro h w hw i params body env ho
    exact h i params body env (.item hw ho)
  · intro h i params body env ho
    cases ho with
    | item hw ho => exact h _ hw i params body env ho

theorem closure_iff {id : Identity} {params : List String} {body : Value} {env : Environment} :
    Closures P (.closure id params body env) ↔ P params body env ∧ Closures P body := by
  constructor
  · intro h
    exact ⟨h _ _ _ _ .self, fun i params body env ho => h i params body env (.body ho)⟩
  · rintro ⟨h, hbody⟩ i params body env ho
    cases ho with
    | self => exact h
    | body ho => exact hbody i params body env ho

/-- There is none in a value that is neither a list nor a closure. -/
theorem of_simple (hl : v.isList = false) (hc : ∀ id params body env,
    v ≠ .closure id params body env) : Closures P v := by
  intro id params body env ho
  cases ho with
  | self => exact absurd rfl (hc id params body env)
  | item => cases hl
  | body => exact absurd rfl (hc _ _ _ _)

theorem symbol (name : String) : Closures P (.symbol name) :=
  of_simple rfl fun _ _ _ _ => nofun

theorem int (n : Int64) : Closures P (.int n) :=
  of_simple rfl fun _ _ _ _ => nofun

theorem float (x : Float) : Closures P (.float x) :=
  of_simple rfl fun _ _ _ _ => nofun

theorem bool (b : Bool) : Closures P (.bool b) :=
  of_simple rfl fun _ _ _ _ => nofun

theorem primitive (p : Primitive) : Closures P (.primitive p) :=
  of_simple rfl fun _ _ _ _ => nofun

theorem lambda (id : Identity) (params : List Value) (body : Value) :
    Closures P (.lambda id params body) :=
  of_simple rfl fun _ _ _ _ => nofun

theorem unspecified : Closures P .unspecified :=
  of_simple rfl fun _ _ _ _ => nofun

theorem item {id : Identity} {items : List Value} (h : Closures P (.list id items)) {w : Value}
    (hw : w ∈ items) : Closures P w :=
  list_iff.1 h w hw

end Closures

end Value

mutual

/-- No closure occurs in what is read. -/
theorem Datum.toValue_closures {P : List String → Value → Environment → Prop} :
    ∀ d : Datum, d.toValue.Ensures (·.Closures P)
  | .int n => .pure (.int n)
  | .float x => .pure (.float x)
  | .symbol name => .pure (.symbol name)
  | .list items => (Datum.toValues_closures items).bind fun _ hvs =>
      .list fun _ => Value.Closures.list_iff.2 hvs

theorem Datum.toValues_closures {P : List String → Value → Environment → Prop} :
    ∀ ds : List Datum, (Datum.toValues ds).Ensures fun vs => ∀ v ∈ vs, v.Closures P
  | [] => .pure nofun
  | d :: ds => (Datum.toValue_closures d).bind fun _ hv =>
      (Datum.toValues_closures ds).bind fun _ hvs => .pure (List.forall_mem_cons.2 ⟨hv, hvs⟩)

end

/-! ## A value beside itself -/

/-- Every value corresponds to itself, if the closures in it are of a certain
kind. -/
def Correspondence.diagonal (P : List String → Value → Environment → Prop) : Correspondence where
  tags := Eq
  unique h h' := by rw [h, h']
  calls f g := f = g ∧ f.isCreated = true ∧ f.Closures P
  created := by
    rintro f g ⟨rfl, hf, -⟩
    exact ⟨hf, hf⟩
  tagged := by
    rintro f g ⟨rfl, hf, -⟩
    cases f with
    | closure id | lambda id => exact ⟨_, _, rfl, rfl, rfl⟩
    | _ => cases hf

namespace Matches

variable {P : List String → Value → Environment → Prop}

mutual

theorem of_closures : ∀ v : Value, v.Closures P → Matches (.diagonal P) v v
  | .int n, _ => .int n
  | .float x, _ => .float x
  | .symbol name, _ => .symbol name
  | .bool b, _ => .bool b
  | .primitive p, _ => .primitive p
  | .unspecified, _ => .unspecified
  | .list _ items, h => .list rfl (of_closures_all items (Value.Closures.list_iff.1 h))
  | .closure .., h => .created ⟨rfl, rfl, h⟩
  | .lambda .., h => .created ⟨rfl, rfl, h⟩

theorem of_closures_all : ∀ vs : List Value, (∀ v ∈ vs, v.Closures P) →
    Forall₂ (Matches (.diagonal P)) vs vs
  | [], _ => .nil
  | v :: vs, h => .cons (of_closures v (h v List.mem_cons_self))
      (of_closures_all vs fun w hw => h w (List.mem_cons_of_mem v hw))

end

mutual

theorem diagonal : ∀ {a b : Value}, Matches (.diagonal P) a b → a = b ∧ a.Closures P
  | _, _, .int n => ⟨rfl, .int n⟩
  | _, _, .float x => ⟨rfl, .float x⟩
  | _, _, .symbol name => ⟨rfl, .symbol name⟩
  | _, _, .bool b => ⟨rfl, .bool b⟩
  | _, _, .primitive p => ⟨rfl, .primitive p⟩
  | _, _, .unspecified => ⟨rfl, .unspecified⟩
  | .list _ items, .list _ items', .list hi hitems => by
      cases (show Value.Tag.list _ = Value.Tag.list _ from hi)
      obtain ⟨rfl, h⟩ := diagonal_all hitems
      exact ⟨rfl, Value.Closures.list_iff.2 h⟩
  | _, _, .created h => ⟨h.1, h.2.2⟩

theorem diagonal_all : ∀ {as bs : List Value}, Forall₂ (Matches (.diagonal P)) as bs →
    as = bs ∧ ∀ a ∈ as, a.Closures P
  | [], [], .nil => ⟨rfl, nofun⟩
  | a :: as, b :: bs, .cons hab habs => by
      obtain ⟨rfl, ha⟩ := diagonal hab
      obtain ⟨rfl, has⟩ := diagonal_all habs
      exact ⟨rfl, List.forall_mem_cons.2 ⟨ha, has⟩⟩

end

theorem diagonal_iff {a b : Value} : Matches (.diagonal P) a b ↔ a = b ∧ a.Closures P := by
  constructor
  · exact diagonal
  · rintro ⟨rfl, h⟩
    exact of_closures a h

end Matches

/-! ## The parts of a form -/

section

variable {P : List String → Value → Environment → Prop}

/-- All closures in the parts of a form are of a certain kind. Binders do not
count, since nothing evaluates them. -/
def Form.Closures (P : List String → Value → Environment → Prop) : Form → Prop
  | .quote datum => datum.Closures P
  | .define _ expr | .assign _ expr => expr.Closures P
  | .defineProcedure _ _ body | .sequence body => ∀ e ∈ body, e.Closures P
  | .ite test yes no => test.Closures P ∧ yes.Closures P ∧ ∀ e ∈ no, e.Closures P
  | .cond clauses => ∀ c ∈ clauses, c.Closures P
  | .bind pairs body => (∀ pair ∈ pairs, pair.2.Closures P) ∧ ∀ e ∈ body, e.Closures P
  | .lambda _ body => body.Closures P

theorem Value.hereditary_closures : Value.Hereditary (·.Closures P) where
  constant {v} h := by
    cases v with
    | int n => exact .int n
    | float x => exact .float x
    | bool b => exact .bool b
    | primitive p => exact .primitive p
    | unspecified => exact .unspecified
    | _ => cases h
  item h v hv := h.item hv

theorem Form.Over.closures {f : Form} (h : f.Over (·.Closures P)) : f.Closures P := by
  cases f with
  | defineProcedure => exact h.2.2
  | bind => exact ⟨fun pair hpair => (h.1 pair hpair).2, h.2⟩
  | lambda => exact h.2.2
  | _ => exact h

/-- What is in the operands of a form is all that is in its parts. -/
theorem Form.parse_closures {k : Keyword} {operands : List Value} {f : Form}
    (h : Form.parse k operands = .ok f) (ho : ∀ e ∈ operands, e.Closures P) : f.Closures P :=
  ((Form.parse_yields Value.hereditary_closures k ho).of_eq_ok h).closures

theorem Form.clause_closures {c test : Value} {body : List Value}
    (h : Form.clause c = .ok (test, body)) (hc : c.Closures P) :
    test.Closures P ∧ ∀ e ∈ body, e.Closures P :=
  (Form.clause_yields Value.hereditary_closures hc).of_eq_ok h

theorem Form.single_closures {body : List Value} (h : ∀ e ∈ body, e.Closures P) :
    (Form.single body).Ensures (·.Closures P) := by
  unfold Form.single
  split
  · exact .pure (h _ List.mem_cons_self)
  · exact .list fun id =>
      Value.Closures.list_iff.2 (List.forall_mem_cons.2 ⟨.symbol _, h⟩)

theorem Lexical.binderNames_closures {pairs : List (Value × Value)}
    {named : List (String × Value)} (h : pairs.mapM Lexical.binderName = .ok named)
    (hp : ∀ pair ∈ pairs, pair.2.Closures P) : ∀ pair ∈ named, pair.2.Closures P := by
  intro pair hpair
  obtain ⟨pair', hpair', h⟩ := exists_of_mem_right (Except.forall₂_of_mapM h) hpair
  have hclosures := hp pair' hpair'
  unfold Lexical.binderName at h
  split at h
  · cases h
    exact hclosures
  · cases h

/-- The call that a `let` stands for has nothing in it that the `let` has not. -/
theorem Lexical.callOfLet_closures {named : List (String × Value)} {body : List Value}
    (hn : ∀ pair ∈ named, pair.2.Closures P) (hb : ∀ e ∈ body, e.Closures P) :
    (Lexical.callOfLet named body).Ensures (·.Closures P) := by
  have hlist : ∀ items : List Value, (∀ e ∈ items, e.Closures P) →
      (Fresh.list items).Ensures (·.Closures P) :=
    fun items h => .list fun id => Value.Closures.list_iff.2 h
  refine .bind (hlist _ ?_) fun params hparams => ?_
  · rintro e he
    obtain ⟨pair, -, rfl⟩ := List.mem_map.1 he
    exact .symbol _
  refine .bind (hlist _ (List.forall_mem_cons.2 ⟨.symbol _, hb⟩)) fun body hbody => ?_
  refine .bind (hlist _ ?_) fun lambda hlambda => ?_
  · exact List.forall_mem_cons.2 ⟨.symbol _, List.forall_mem_cons.2
      ⟨hparams, List.forall_mem_singleton.2 hbody⟩⟩
  refine hlist _ (List.forall_mem_cons.2 ⟨hlambda, ?_⟩)
  rintro e he
  obtain ⟨pair, hpair, rfl⟩ := List.mem_map.1 he
  exact hn pair hpair

end

end TwinScheme

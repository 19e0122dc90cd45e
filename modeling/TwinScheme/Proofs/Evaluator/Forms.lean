import Mathlib.Data.List.Forall2
import Mathlib.Data.List.Nodup
import TwinScheme.Lexical.Scoping
import TwinScheme.Proofs.Evaluator.Running

/-!
# Forms from their parts

A special form is recognised by a keyword and taken apart by `Form.parse`. The
equations below go the other way: what a list is taken apart into if it was put
together from a keyword, parameters, pairs and a body. A name that no form is
recognised by is `Plain`.
-/

namespace TwinScheme

/-- A name that no form is recognised by. -/
structure Plain (name : String) : Prop where
  not_keyword : Keyword.ofName? name = none
  not_else : name ≠ "else"

/-- The list that a keyword heads. -/
def Keyword.form (k : Keyword) (id : Identity) (operands : List Value) : Value :=
  .list id (.symbol k.name :: operands)

/-! ## Names with a meaning of their own -/

theorem Keyword.ofName?_name (k : Keyword) : Keyword.ofName? k.name = some k := by
  cases k <;> decide

theorem Form.keyword?_name (k : Keyword) : Form.keyword? (.symbol k.name) = some k :=
  k.ofName?_name

/-- What heads a form is the name of its keyword. -/
theorem Form.eq_of_keyword? {head : Value} {k : Keyword} (h : Form.keyword? head = some k) :
    head = .symbol k.name := by
  cases head with
  | symbol name =>
      have hfound : Keyword.all.find? (fun k => k.name == name) = some k := h
      have hname := List.find?_some hfound
      rw [eq_of_beq hname]
  | _ => cases h

/-- What evaluates to itself is no name, so it heads no form. -/
theorem Form.keyword?_of_isSelfEvaluating {v : Value} (h : v.isSelfEvaluating = true) :
    Form.keyword? v = none := by
  cases v with
  | symbol | list => cases h
  | _ => rfl

theorem Form.isElse_of_isSelfEvaluating {v : Value} (h : v.isSelfEvaluating = true) :
    Form.isElse v = false := by
  cases v with
  | symbol | list => cases h
  | _ => rfl

theorem builtin?_keyword (k : Keyword) : builtin? k.name = none := by
  cases k <;> rfl

theorem builtin?_else : builtin? "else" = none := rfl

theorem Plain.ne_keyword {name : String} (h : Plain name) (k : Keyword) : name ≠ k.name := by
  rintro rfl
  have hnone := h.not_keyword
  rw [k.ofName?_name] at hnone
  cases hnone

/-- What the primitives are called is plain. -/
theorem Plain.of_isSome_builtin? {name : String} (h : (builtin? name).isSome = true) :
    Plain name := by
  constructor
  · cases hk : Keyword.ofName? name with
    | none => rfl
    | some k =>
        have hfound := List.find?_some hk
        have hname : k.name = name := eq_of_beq hfound
        rw [← hname, builtin?_keyword] at h
        cases h
  · rintro rfl
    rw [builtin?_else] at h
    cases h

/-- A pair of a binder and an expression, as `let` has it. -/
structure LetPair where
  id : Identity
  name : String
  expr : Value

def LetPair.toValue (p : LetPair) : Value :=
  .list p.id [.symbol p.name, p.expr]

/-! ## Checks one after another -/

/-- Two checks in a row pass where each of them does. -/
theorem Except.exists_of_bind_eq_ok {α β : Type} {x : Except Error α} {f : α → Except Error β}
    {b : β} (h : x >>= f = .ok b) : ∃ a, x = .ok a ∧ f a = .ok b := by
  cases x with
  | error e => cases h
  | ok a => exact ⟨a, rfl, h⟩

/-- Where a row of checks passes, each of them does. -/
theorem Except.forall₂_of_mapM {α β : Type} {f : α → Except Error β} {as : List α}
    {bs : List β} (h : as.mapM f = .ok bs) : List.Forall₂ (fun a b => f a = .ok b) as bs := by
  induction as generalizing bs with
  | nil =>
      cases h
      exact .nil
  | cons a as ih =>
      rw [List.mapM_cons] at h
      obtain ⟨b, ha, h⟩ := Except.exists_of_bind_eq_ok h
      obtain ⟨bs', hr, h⟩ := Except.exists_of_bind_eq_ok h
      cases h
      exact .cons ha (ih hr)

theorem exists_of_mem_right {α β : Type} {R : α → β → Prop} {as : List α} {bs : List β}
    (h : List.Forall₂ R as bs) {b : β} (hb : b ∈ bs) : ∃ a ∈ as, R a b := by
  obtain ⟨i, hi, rfl⟩ := List.getElem_of_mem hb
  have hi' : i < as.length := h.length_eq ▸ hi
  exact ⟨as[i], List.getElem_mem hi', h.get hi' hi⟩

/-! ## What is refused

What is no list has no parts to read, and what is no symbol names nothing. -/

theorem Value.isList_of_isSelfEvaluating {v : Value} (h : v.isSelfEvaluating = true) :
    v.isList = false := by
  cases v with
  | symbol | list => cases h
  | _ => rfl

namespace Form

variable {v e : Value} {vs : List Value}

theorem binders_eq_error (h : v.isList = false) :
    binders v = .error (.type .parametersNotList none) := by
  cases v with
  | list => cases h
  | _ => rfl

theorem pair_eq_error (h : v.isList = false) : pair v = .error (.type (.badBinding v) none) := by
  cases v with
  | list => cases h
  | _ => rfl

theorem pairs_eq_error (h : v.isList = false) :
    pairs v = .error (.type .bindingsNotList none) := by
  cases v with
  | list => cases h
  | _ => rfl

theorem clause_eq_error (h : v.isList = false) :
    clause v = .error (.type (.clauseNotList v) none) := by
  cases v with
  | list => cases h
  | _ => rfl

theorem parameterName_eq_error (h : v.isSymbol = false) :
    parameterName v = .error (.type (.parameterNotSymbol v) none) := by
  cases v with
  | symbol => cases h
  | _ => rfl

theorem signature_eq_error (h : v.isSymbol = false) :
    signature (v :: vs) = .error (.type .badSignature none) := by
  cases v with
  | symbol => cases h
  | _ => rfl

theorem parse_set_eq_error (h : v.isSymbol = false) :
    parse .set [v, e] = .error (.type (.targetNotSymbol .set) none) := by
  cases v with
  | symbol => cases h
  | _ => rfl

theorem parse_set_of_length_ne (h : vs.length ≠ 1) :
    parse .set (v :: vs) = .error (.arity 2 (vs.length + 1)) := by
  match vs with
  | [] => cases v <;> rfl
  | [_] => exact absurd rfl h
  | _ :: _ :: _ => cases v <;> rfl

theorem parse_define_eq_error (hlist : v.isList = false) (hsymbol : v.isSymbol = false) :
    parse .define [v, e] = .error (.type (.targetNotSymbol .define) none) := by
  cases v with
  | symbol => cases hsymbol
  | list => cases hlist
  | _ => rfl

theorem parse_define_of_length_ne (hlist : v.isList = false) (h : vs.length ≠ 1) :
    parse .define (v :: vs) = .error (.arity 2 (vs.length + 1)) := by
  match vs with
  | [] => cases v <;> rfl
  | [_] => exact absurd rfl h
  | _ :: _ :: _ =>
      cases v with
      | list => cases hlist
      | _ => rfl

end Form

theorem Lexical.binderName_eq_error {v e : Value} (h : v.isSymbol = false) :
    Lexical.binderName (v, e) = .error (.type (.bindingNotSymbol v) none) := by
  cases v with
  | symbol => cases h
  | _ => rfl

/-! ## Names among parameters -/

/-- The name that a symbol is. -/
def Value.name? : Value → Option String
  | symbol x => some x
  | _ => none

/-- The names among some parameters. -/
def Form.symbols (params : List Value) : List String :=
  params.filterMap Value.name?

theorem Form.symbols_map_symbol (names : List String) :
    Form.symbols (names.map .symbol) = names := by
  rw [Form.symbols, List.filterMap_map]
  exact List.filterMap_some

/-- Parameters are distinct if the names among them are. -/
theorem Form.repeated?_eq_none_iff (params : List Value) (seen : List String) :
    Form.repeated? seen params = none ↔
      (Form.symbols params).Nodup ∧ ∀ y ∈ Form.symbols params, y ∉ seen := by
  induction params generalizing seen with
  | nil => simp [Form.repeated?, Form.symbols]
  | cons p params ih =>
      cases p with
      | symbol x =>
          have hcons : Form.symbols (.symbol x :: params) = x :: Form.symbols params := rfl
          rw [Form.repeated?, hcons, List.nodup_cons, List.forall_mem_cons]
          by_cases hx : x ∈ seen
          · simp [hx]
          · rw [if_neg hx, ih]
            simp only [List.mem_cons, not_or, hx, not_false_eq_true, true_and]
            constructor
            · rintro ⟨hnodup, hnew⟩
              exact ⟨⟨fun hmem => (hnew x hmem).1 rfl, hnodup⟩, fun y hy => (hnew y hy).2⟩
            · rintro ⟨⟨hmem, hnodup⟩, hnew⟩
              exact ⟨hnodup, fun y hy => ⟨fun he => hmem (he ▸ hy), hnew y hy⟩⟩
      | _ => exact ih seen

theorem Form.distinct_of_nodup {params : List Value} (h : (Form.symbols params).Nodup) :
    Form.distinct params = .ok params := by
  rw [Form.distinct, (Form.repeated?_eq_none_iff params []).2 ⟨h, fun _ _ => List.not_mem_nil⟩]

theorem Form.distinct_symbols {params : List String} (hnodup : params.Nodup) :
    Form.distinct (params.map .symbol) = .ok (params.map .symbol) :=
  Form.distinct_of_nodup ((Form.symbols_map_symbol params).symm ▸ hnodup)

theorem Form.parameterNames_symbols (params : List String) :
    Form.parameterNames (params.map .symbol) = .ok params := by
  induction params with
  | nil => rfl
  | cons x params ih =>
      unfold Form.parameterNames at ih ⊢
      rw [List.map_cons, List.mapM_cons, ih]
      rfl

/-! ## Taking forms apart -/

theorem Form.parse_lambda {params : List String} (hnodup : params.Nodup) (id : Identity)
    (body : Value) : Form.parse .lambda [.list id (params.map .symbol), body] =
      .ok (.lambda (params.map .symbol) body) := by
  rw [Form.parse, Form.binders, Form.distinct_symbols hnodup]
  rfl

theorem Form.parse_defineProcedure (name : String) {params : List String}
    (hnodup : params.Nodup) (id : Identity) {body : List Value} (hbody : body ≠ []) :
    Form.parse .define (.list id (.symbol name :: params.map .symbol) :: body) =
      .ok (.defineProcedure name params body) := by
  have hsignature : Form.signature (.symbol name :: params.map .symbol) =
      .ok (name, params) := by
    rw [Form.signature, Form.distinct_symbols hnodup]
    show (Form.parameterNames (params.map .symbol) >>= fun ps => pure (name, ps)) = _
    rw [Form.parameterNames_symbols]
    rfl
  obtain ⟨b, body, rfl⟩ := List.exists_cons_of_ne_nil hbody
  rw [Form.parse, hsignature]
  rfl

theorem Form.parse_let {bindings : Value} {pairs : List (Value × Value)} {body : List Value}
    (hbody : body ≠ []) (hpairs : Form.pairs bindings = .ok pairs) :
    Form.parse .letForm (bindings :: body) = .ok (.bind pairs body) := by
  obtain ⟨b, body, rfl⟩ := List.exists_cons_of_ne_nil hbody
  rw [Form.parse, hpairs]
  · rfl
  · simp

theorem Form.pairs_toValue (j : Identity) (pairs : List LetPair) :
    Form.pairs (.list j (pairs.map (·.toValue))) =
      .ok (pairs.map fun p => (.symbol p.name, p.expr)) := by
  rw [Form.pairs]
  induction pairs with
  | nil => rfl
  | cons p pairs ih =>
      rw [List.map_cons, List.mapM_cons, ih]
      rfl

theorem Lexical.mapM_binderName (pairs : List LetPair) :
    (pairs.map fun p => ((.symbol p.name : Value), p.expr)).mapM Lexical.binderName =
      .ok (pairs.map fun p => (p.name, p.expr)) := by
  induction pairs with
  | nil => rfl
  | cons p pairs ih =>
      rw [List.map_cons, List.mapM_cons, ih]
      rfl

/-- What `let` is expanded into. -/
theorem Lexical.callOfLet_eq (named : List (String × Value)) (body : List Value)
    (next : Identity) : Lexical.callOfLet named body next =
      (.list (next + 3)
        (Keyword.lambda.form (next + 2) [.list next ((named.map (·.1)).map .symbol),
          Keyword.begin.form (next + 1) body] :: named.map (·.2)), next + 4) := by
  rw [List.map_map]
  rfl

theorem Form.eq_of_parameterNames {params : List Value} {names : List String}
    (h : Form.parameterNames params = .ok names) : params = names.map .symbol := by
  refine List.forall₂_eq_eq_eq ▸ List.forall₂_map_right_iff.2 ?_
  refine (Except.forall₂_of_mapM h).imp fun v name hv => ?_
  cases v with
  | symbol => cases hv; rfl
  | _ => cases hv

theorem Form.eq_of_distinct {items items' : List Value} (h : Form.distinct items = .ok items') :
    items' = items := by
  unfold Form.distinct at h
  split at h <;> cases h
  rfl

/-- A special form is evaluated by its parts. -/
theorem Scoping.eval_form {σ ρ : Type} (S : Scoping σ ρ) (limit left : Nat) (env : ρ)
    (k : Keyword) (id : Identity) (operands : List Value) :
    S.eval limit (left + 1) env (k.form id operands) =
      (do S.evalForm (S.eval limit left env) env (← Eval.ofExcept (Form.parse k operands))) := by
  rw [Keyword.form, eval_list_succ, evalList_form _ _ _ (Form.keyword?_name k)]

end TwinScheme

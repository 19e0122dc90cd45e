import Mathlib.Logic.Equiv.Basic
import TwinScheme.Proofs.Evaluator.Forms
import TwinScheme.Proofs.Lexical.Likeness

/-!
# Code with names renamed in a part of it

Two runs evaluate the same code, except that inside one `lambda` the names are
renamed on the one side: every parameter, every binder and every name that is
read, assigned or defined there, and nothing in quotations. `Code` is that
relation. It has two modes, inside and outside, and the one constructor that
leads from outside to inside is the renamed `lambda`.

A quotation is kept where an expression stands, but a list that a form takes
apart may look like a quotation and be a row of binders, a pair or a clause. So
the relation says of each operand whether it is an expression or is taken apart.
That is all `Form.parse` needs: it gives forms with corresponding parts, or is
refused on both sides for the same reason (`parse_form`).

Names are renamed by a permutation that leaves alone what forms are recognised
by. The identity is such a permutation, and with it the relation is that of two
copies of one expression.
-/

namespace TwinScheme

open List (Forall₂)

/-- How names are renamed. -/
structure Renaming where
  /-- What becomes of names inside. -/
  names : Equiv.Perm String
  /-- A name that is bound wherever code is inside. -/
  parameter : String
  keyword : ∀ k : Keyword, names k.name = k.name
  otherwise : names "else" = "else"

/-- Whether code stands outside or inside the renamed `lambda`. -/
inductive Renaming.Mode where
  | outside
  | inside

/-- Whether a form evaluates an operand or takes it apart, and how far. -/
inductive Position where
  | expression
  /-- A row of binders, a signature or a clause. -/
  | parts
  /-- The bindings of a `let`. -/
  | rows

/-- The place of the first operand. -/
def Keyword.first : Keyword → Position
  | lambda | define | cond => .parts
  | letForm => .rows
  | _ => .expression

/-- The place of the other operands. -/
def Keyword.others : Keyword → Position
  | cond => .parts
  | _ => .expression

namespace Renaming

variable (R : Renaming) (W : Correspondence)

/-- What becomes of a name. -/
def rename : Mode → String → String
  | .outside => id
  | .inside => R.names

/-- The names that code may have. Inside, a name that is renamed has to be bound
there. -/
def Allows : Mode → String → Prop
  | .outside, _ => True
  | .inside, a => a = R.parameter ∨ R.names a = a

mutual

/-- Code of the two runs that corresponds. -/
inductive Code : Mode → Position → Value → Value → Prop
  | value {m p e e'} : e.isSelfEvaluating = true → Matches W e e' → Code m p e e'
  | symbol {m p a} : R.Allows m a → Code m p (.symbol a) (.symbol (R.rename m a))
  | quotation {m i j operands operands'} : Forall₂ (Matches W) operands operands' →
      Code m .expression (Keyword.quote.form i operands) (Keyword.quote.form j operands')
  | empty {m i j} : Code m .expression (.list i []) (.list j [])
  | combination {m i j head head' rest rest'} : Form.keyword? head = none →
      Code m .expression head head' → Codes m .expression rest rest' →
      Code m .expression (.list i (head :: rest)) (.list j (head' :: rest'))
  | bare {m k i j} : k ≠ .quote → Code m .expression (Keyword.form k i []) (Keyword.form k j [])
  | form {m k i j a a' as as'} : k ≠ .quote → Code m (Keyword.first k) a a' →
      Codes m (Keyword.others k) as as' →
      Code m .expression (Keyword.form k i (a :: as)) (Keyword.form k j (a' :: as'))
  | parts {m i j items items'} : Codes m .expression items items' →
      Code m .parts (.list i items) (.list j items')
  | rows {m i j items items'} : Codes m .parts items items' →
      Code m .rows (.list i items) (.list j items')
  /-- The `lambda` inside which names are renamed. -/
  | here {i j i' j' body body'} {params : List String} : R.parameter ∈ params →
      (∀ a ∈ params, R.Allows .inside a) → Code .inside .expression body body' →
      Code .outside .expression
        (Keyword.lambda.form i [.list j (params.map .symbol), body])
        (Keyword.lambda.form i' [.list j' ((params.map R.names).map .symbol), body'])

/-- Rows of code that corresponds. -/
inductive Codes : Mode → Position → List Value → List Value → Prop
  | nil {m p} : Codes m p [] []
  | cons {m p a a' as as'} : Code m p a a' → Codes m p as as' → Codes m p (a :: as) (a' :: as')

end

/-- Forms with corresponding parts. -/
inductive FormCode (m : Mode) : Form → Form → Prop
  | define {a e e'} : R.Allows m a → R.Code W m .expression e e' →
      FormCode m (.define a e) (.define (R.rename m a) e')
  | defineProcedure {a body body'} {params : List String} :
      R.Allows m a → (∀ x ∈ params, R.Allows m x) →
      Forall₂ (R.Code W m .expression) body body' →
      FormCode m (.defineProcedure a params body)
        (.defineProcedure (R.rename m a) (params.map (R.rename m)) body')
  | assign {a e e'} : R.Allows m a → R.Code W m .expression e e' →
      FormCode m (.assign a e) (.assign (R.rename m a) e')
  | ite {t t' y y' n n'} : R.Code W m .expression t t' → R.Code W m .expression y y' →
      Option.Rel (R.Code W m .expression) n n' → FormCode m (.ite t y n) (.ite t' y' n')
  | cond {clauses clauses'} : Forall₂ (R.Code W m .parts) clauses clauses' →
      FormCode m (.cond clauses) (.cond clauses')
  | sequence {body body'} : Forall₂ (R.Code W m .expression) body body' →
      FormCode m (.sequence body) (.sequence body')
  | bind {pairs pairs' body body'} :
      Forall₂ (fun p p' : Value × Value => R.Code W m .expression p.1 p'.1 ∧
        R.Code W m .expression p.2 p'.2) pairs pairs' →
      Forall₂ (R.Code W m .expression) body body' →
      FormCode m (.bind pairs body) (.bind pairs' body')
  | lambda {params params' body body'} : Forall₂ (R.Code W m .expression) params params' →
      R.Code W m .expression body body' → FormCode m (.lambda params body) (.lambda params' body')

variable {R W}

theorem codes_iff {m : Mode} {p : Position} {as as' : List Value} :
    R.Codes W m p as as' ↔ Forall₂ (R.Code W m p) as as' := by
  constructor
  · intro h
    induction as generalizing as' with
    | nil =>
        cases h
        exact .nil
    | cons a as ih =>
        cases h with
        | cons ha has => exact .cons ha (ih has)
  · intro h
    induction h with
    | nil => exact .nil
    | cons ha _ ih => exact .cons ha ih

/-! ## Names -/

theorem rename_injective (m : Mode) : Function.Injective (R.rename m) := by
  cases m with
  | outside => exact Function.injective_id
  | inside => exact R.names.injective

theorem rename_keyword (m : Mode) (k : Keyword) : R.rename m k.name = k.name := by
  cases m with
  | outside => rfl
  | inside => exact R.keyword k

theorem rename_else (m : Mode) : R.rename m "else" = "else" := by
  cases m with
  | outside => rfl
  | inside => exact R.otherwise

/-- A name is told from a fixed one by what becomes of it. -/
theorem rename_eq_iff (m : Mode) {a b : String} (hb : R.rename m b = b) :
    R.rename m a = b ↔ a = b := by
  rw [← (rename_injective (R := R) m).eq_iff (a := a), hb]

/-- A name heads a form if and only if what becomes of it does. -/
theorem keyword?_rename (m : Mode) (a : String) :
    Form.keyword? (.symbol (R.rename m a)) = Form.keyword? (.symbol a) := by
  unfold Form.keyword? Keyword.ofName?
  refine congrArg (fun f => Keyword.all.find? f) (funext fun k => ?_)
  rw [Bool.eq_iff_iff, beq_iff_eq, beq_iff_eq, eq_comm, rename_eq_iff m (rename_keyword m k),
    eq_comm]

theorem isElse_rename (m : Mode) (a : String) :
    Form.isElse (.symbol (R.rename m a)) = Form.isElse (.symbol a) := by
  show (R.rename m a == "else") = (a == "else")
  rw [Bool.eq_iff_iff, beq_iff_eq, beq_iff_eq, rename_eq_iff m (rename_else m)]

/-! ## Shapes -/

namespace Code

variable {m : Mode} {p : Position} {e e' : Value} {a b : String}

theorem symbol_left (h : R.Code W m p (.symbol a) e') :
    e' = .symbol (R.rename m a) ∧ R.Allows m a := by
  cases h with
  | value hself => cases hself
  | symbol ha => exact ⟨rfl, ha⟩

/-- What is not a symbol stands opposite none. -/
theorem isSymbol_eq (h : R.Code W m p e e') : e.isSymbol = e'.isSymbol := by
  cases h with
  | value _ hW => exact hW.isSymbol_eq
  | _ => rfl

theorem isList_eq (h : R.Code W m p e e') : e.isList = e'.isList := by
  cases h with
  | value _ hW => exact hW.isList_eq
  | _ => rfl

theorem keyword?_eq (h : R.Code W m p e e') : Form.keyword? e' = Form.keyword? e := by
  cases h with
  | value hself hW =>
      have hself' : e'.isSelfEvaluating = true := hW.isSelfEvaluating_eq ▸ hself
      rw [Form.keyword?_of_isSelfEvaluating hself, Form.keyword?_of_isSelfEvaluating hself']
  | symbol => exact keyword?_rename m _
  | _ => rfl

theorem isElse_eq (h : R.Code W m p e e') : Form.isElse e' = Form.isElse e := by
  cases h with
  | value hself hW =>
      have hself' : e'.isSelfEvaluating = true := hW.isSelfEvaluating_eq ▸ hself
      rw [Form.isElse_of_isSelfEvaluating hself, Form.isElse_of_isSelfEvaluating hself']
  | symbol => exact isElse_rename m _
  | _ => rfl

/-- A list that is taken apart stands opposite a list of corresponding items. -/
theorem parts_left {i : Identity} {items : List Value} (h : R.Code W m .parts (.list i items) e') :
    ∃ j items', e' = .list j items' ∧ Forall₂ (R.Code W m .expression) items items' := by
  cases h with
  | value hself => cases hself
  | parts hitems => exact ⟨_, _, rfl, codes_iff.1 hitems⟩

theorem rows_left {i : Identity} {items : List Value} (h : R.Code W m .rows (.list i items) e') :
    ∃ j items', e' = .list j items' ∧ Forall₂ (R.Code W m .parts) items items' := by
  cases h with
  | value hself => cases hself
  | rows hitems => exact ⟨_, _, rfl, codes_iff.1 hitems⟩

end Code

end Renaming

/-! ## Growing and showing -/

namespace Matches

variable {W : Correspondence} {r : String → String}

mutual

theorem like (hcalls : ∀ {f g}, W.calls f g → f.Like r g) :
    ∀ a b : Value, Matches W a b → a.Like r b
  | _, _, .int n => .int n
  | _, _, .float x => .float x
  | _, _, .symbol name => .symbol name
  | _, _, .bool b => .bool b
  | _, _, .primitive p => .primitive p
  | _, _, .unspecified => .unspecified
  | .list _ items, .list _ items', .list _ hitems => .list (likeAll hcalls items items' hitems)
  | _, _, .created h => hcalls h

theorem likeAll (hcalls : ∀ {f g}, W.calls f g → f.Like r g) :
    ∀ as bs : List Value, Forall₂ (Matches W) as bs → Forall₂ (Value.Like r) as bs
  | [], [], .nil => .nil
  | a :: as, b :: bs, .cons hab habs => .cons (like hcalls a b hab) (likeAll hcalls as bs habs)

end

end Matches

namespace Renaming.Code

variable {R : Renaming} {V W : Correspondence}

theorem symbols_like {params : List String} :
    Forall₂ (Value.Like R.names) (params.map Value.symbol)
      ((params.map R.names).map Value.symbol) := by
  rw [List.map_map, List.forall₂_map_left_iff, List.forall₂_map_right_iff, List.forall₂_same]
  exact fun a _ => .renamed a

mutual

theorem mono (h : V.Le W) : ∀ (m : Mode) (p : Position) (a b : Value), R.Code V m p a b →
    R.Code W m p a b
  | _, _, _, _, .value hself hV => .value hself (hV.mono h)
  | _, _, _, _, .symbol ha => .symbol ha
  | _, _, _, _, .quotation hV => .quotation (Matches.monoAll h _ _ hV)
  | _, _, _, _, .empty => .empty
  | m, _, .list _ (_ :: _), .list _ (_ :: _), .combination hk hhead hrest =>
      .combination hk (mono h m _ _ _ hhead) (monoAll h m _ _ _ hrest)
  | _, _, _, _, .bare hk => .bare hk
  | m, _, .list _ (_ :: _ :: _), .list _ (_ :: _ :: _), .form hk ha has =>
      .form hk (mono h m _ _ _ ha) (monoAll h m _ _ _ has)
  | m, _, .list _ _, .list _ _, .parts hitems => .parts (monoAll h m _ _ _ hitems)
  | m, _, .list _ _, .list _ _, .rows hitems => .rows (monoAll h m _ _ _ hitems)
  | _, _, .list _ [_, _, _], .list _ [_, _, _], .here hx hparams hbody =>
      .here hx hparams (mono h _ _ _ _ hbody)

theorem monoAll (h : V.Le W) : ∀ (m : Mode) (p : Position) (as bs : List Value),
    R.Codes V m p as bs → R.Codes W m p as bs
  | _, _, [], [], .nil => .nil
  | m, p, a :: as, b :: bs, .cons hab habs => .cons (mono h m p a b hab) (monoAll h m p as bs habs)

end

theorem rename_like (m : Mode) (a : String) :
    Value.Like R.names (.symbol a) (.symbol (R.rename m a)) := by
  cases m with
  | outside => exact .symbol a
  | inside => exact .renamed a

mutual

/-- Corresponding code looks alike, but for the names that are renamed. -/
theorem like (hcalls : ∀ {f g}, W.calls f g → f.Like R.names g) :
    ∀ (m : Mode) (p : Position) (a b : Value), R.Code W m p a b → a.Like R.names b
  | _, _, _, _, .value _ hW => hW.like hcalls
  | m, _, _, _, .symbol _ => rename_like m _
  | _, _, _, _, .quotation hW => .list (.cons (.symbol _) (Matches.likeAll hcalls _ _ hW))
  | _, _, _, _, .empty => .list .nil
  | m, _, .list _ (_ :: _), .list _ (_ :: _), .combination _ hhead hrest =>
      .list (.cons (like hcalls m _ _ _ hhead) (likeAll hcalls m _ _ _ hrest))
  | _, _, _, _, .bare _ => .list (.cons (.symbol _) .nil)
  | m, _, .list _ (_ :: _ :: _), .list _ (_ :: _ :: _), .form _ ha has =>
      .list (.cons (.symbol _) (.cons (like hcalls m _ _ _ ha) (likeAll hcalls m _ _ _ has)))
  | m, _, .list _ _, .list _ _, .parts hitems => .list (likeAll hcalls m _ _ _ hitems)
  | m, _, .list _ _, .list _ _, .rows hitems => .list (likeAll hcalls m _ _ _ hitems)
  | _, _, .list _ [_, _, _], .list _ [_, _, _], .here _ _ hbody =>
      .list (.cons (.symbol _)
        (.cons (.list symbols_like) (.cons (like hcalls _ _ _ _ hbody) .nil)))

theorem likeAll (hcalls : ∀ {f g}, W.calls f g → f.Like R.names g) :
    ∀ (m : Mode) (p : Position) (as bs : List Value), R.Codes W m p as bs →
    Forall₂ (Value.Like R.names) as bs
  | _, _, [], [], .nil => .nil
  | m, p, a :: as, b :: bs, .cons hab habs =>
      .cons (like hcalls m p a b hab) (likeAll hcalls m p as bs habs)

end

/-- A list of things that are code wherever they stand. -/
theorem of_items {i j : Identity} {items items' : List Value}
    (hitems : Forall₂ (Matches W) items items')
    (hcodes : ∀ p, R.Codes W .outside p items items') :
    ∀ p, R.Code W .outside p (.list i items) (.list j items')
  | .parts => .parts (hcodes .expression)
  | .rows => .rows (hcodes .parts)
  | .expression => by
      cases hitems with
      | nil => exact .empty
      | @cons head head' rest rest' hhead hrest =>
          have hforms := codes_iff.1 (hcodes .expression)
          cases hk : Form.keyword? head with
          | none =>
              obtain ⟨hcode, hcodes⟩ := List.forall₂_cons.1 hforms
              exact .combination hk hcode (codes_iff.2 hcodes)
          | some k =>
              obtain rfl := Form.eq_of_keyword? hk
              cases hhead with
              | created hcalls => cases (Correspondence.created _ hcalls).1
              | symbol =>
                  by_cases hquote : k = .quote
                  · subst hquote
                    exact .quotation hrest
                  · cases hrest with
                    | nil => exact .bare hquote
                    | cons =>
                        have hfirst := codes_iff.1 (hcodes k.first)
                        have hothers := codes_iff.1 (hcodes k.others)
                        obtain ⟨-, hfirst⟩ := List.forall₂_cons.1 hfirst
                        obtain ⟨-, hothers⟩ := List.forall₂_cons.1 hothers
                        exact .form hquote (List.forall₂_cons.1 hfirst).1
                          (codes_iff.2 (List.forall₂_cons.1 hothers).2)

mutual

/-- Outside, what corresponds is code that corresponds, wherever it stands. -/
theorem of_matches : ∀ (a b : Value), Matches W a b → ∀ p, R.Code W .outside p a b
  | _, _, .int n, _ => .value rfl (.int n)
  | _, _, .float x, _ => .value rfl (.float x)
  | _, _, .symbol _, _ => .symbol trivial
  | _, _, .bool b, _ => .value rfl (.bool b)
  | _, _, .primitive p, _ => .value rfl (.primitive p)
  | _, _, .unspecified, _ => .value rfl .unspecified
  | .list _ items, .list _ items', .list _ hitems, p =>
      of_items hitems (of_matchesAll items items' hitems) p
  | a, _, .created hcalls, _ => by
      refine .value ?_ (.created hcalls)
      have hcreated := (Correspondence.created _ hcalls).1
      cases a <;> cases hcreated <;> rfl

theorem of_matchesAll : ∀ (as bs : List Value), Forall₂ (Matches W) as bs →
    ∀ p, R.Codes W .outside p as bs
  | [], [], .nil, _ => .nil
  | a :: as, b :: bs, .cons hab habs, p => .cons (of_matches a b hab p) (of_matchesAll as bs habs p)

end

end Renaming.Code

/-! ## Taking forms apart -/

namespace Renaming

variable {R : Renaming} {W : Correspondence} {m : Mode}

/-- The first repeated name is the first repeated name. -/
theorem repeated?_rename {seen : List String} {items items' : List Value}
    (h : Forall₂ (R.Code W m .expression) items items') :
    Form.repeated? (seen.map (R.rename m)) items' =
      (Form.repeated? seen items).map (R.rename m) := by
  induction h generalizing seen with
  | nil => rfl
  | @cons v v' items items' hv _ ih =>
      cases hsymbol : v.isSymbol with
      | true =>
          cases v with
          | symbol a =>
              obtain ⟨rfl, -⟩ := hv.symbol_left
              have hseen := List.mem_map_of_injective (a := a) (l := seen)
                (rename_injective (R := R) m)
              rw [Form.repeated?, Form.repeated?]
              by_cases hmem : a ∈ seen
              · rw [if_pos hmem, if_pos (hseen.2 hmem)]
                rfl
              · rw [if_neg hmem, if_neg (mt hseen.1 hmem), ← List.map_cons, ih]
          | _ => cases hsymbol
      | false =>
          have hskip : ∀ (v : Value) (seen : List String) (rest : List Value),
              v.isSymbol = false → Form.repeated? seen (v :: rest) = Form.repeated? seen rest := by
            intro v seen rest hno
            cases v <;> first | rfl | cases hno
          rw [hskip v seen items hsymbol, hskip v' _ items' (hv.isSymbol_eq ▸ hsymbol)]
          exact ih

/-- Rows of binders that correspond, with the names of those that are symbols. -/
theorem distinct_checked {items items' : List Value}
    (h : Forall₂ (R.Code W m .expression) items items') :
    Checked R.names (Forall₂ (R.Code W m .expression)) (Form.distinct items)
      (Form.distinct items') := by
  have hrepeated : Form.repeated? [] items' = (Form.repeated? [] items).map (R.rename m) :=
    @repeated?_rename R W m [] items items' h
  rw [Form.distinct, Form.distinct, hrepeated]
  cases Form.repeated? [] items with
  | none => exact .ok h
  | some name =>
      cases m with
      | outside => exact .refused (.eval (.refl _))
      | inside => exact .refused (.eval (.repeatedParameter name))

theorem binders_checked {params params' : Value} (h : R.Code W m .parts params params') :
    Checked R.names (Forall₂ (R.Code W m .expression)) (Form.binders params)
      (Form.binders params') := by
  cases hlist : params.isList with
  | true =>
      cases params with
      | list i items =>
          obtain ⟨j, items', rfl, hitems⟩ := h.parts_left
          exact distinct_checked hitems
      | _ => cases hlist
  | false =>
      rw [Form.binders_eq_error hlist, Form.binders_eq_error (h.isList_eq ▸ hlist)]
      exact .refused (.type (.refl _))

/-- A form without operands. -/
theorem parse_bare {k : Keyword} (hk : k ≠ .quote) :
    Checked R.names (R.FormCode W m) (Form.parse k []) (Form.parse k []) := by
  cases k with
  | quote => exact absurd rfl hk
  | cond => exact .ok (.cond .nil)
  | begin => exact .ok (.sequence .nil)
  | define | set | ite | letForm | lambda => exact .refused (.arity _ _)

theorem parse_set {a a' : Value} {as as' : List Value} (ha : R.Code W m .expression a a')
    (has : Forall₂ (R.Code W m .expression) as as') :
    Checked R.names (R.FormCode W m) (Form.parse .set (a :: as)) (Form.parse .set (a' :: as')) := by
  match has with
  | .nil =>
      rw [Form.parse_set_of_length_ne (by simp), Form.parse_set_of_length_ne (by simp)]
      exact .refused (.arity _ _)
  | @List.Forall₂.cons _ _ _ e e' _ _ he .nil =>
      cases hsymbol : a.isSymbol with
      | true =>
          cases a with
          | symbol name =>
              obtain ⟨rfl, hname⟩ := ha.symbol_left
              exact .ok (.assign hname he)
          | _ => cases hsymbol
      | false =>
          rw [Form.parse_set_eq_error hsymbol,
            Form.parse_set_eq_error (ha.isSymbol_eq ▸ hsymbol)]
          exact .refused (.type (.refl _))
  | .cons _ (.cons _ hrest) =>
      rw [Form.parse_set_of_length_ne (by simp), Form.parse_set_of_length_ne (by simp),
        List.length_cons, List.length_cons, List.length_cons, List.length_cons, hrest.length_eq]
      exact .refused (.arity _ _)

section

variable (hcalls : ∀ {f g}, W.calls f g → f.Like R.names g)

include hcalls

theorem parameterName_checked {v v' : Value} (h : R.Code W m .expression v v') :
    Checked R.names (fun a a' => a' = R.rename m a ∧ R.Allows m a) (Form.parameterName v)
      (Form.parameterName v') := by
  cases hsymbol : v.isSymbol with
  | true =>
      cases v with
      | symbol a =>
          obtain ⟨rfl, ha⟩ := h.symbol_left
          exact .ok ⟨rfl, ha⟩
      | _ => cases hsymbol
  | false =>
      rw [Form.parameterName_eq_error hsymbol,
        Form.parameterName_eq_error (h.isSymbol_eq ▸ hsymbol)]
      exact .refused (.type (.parameterNotSymbol (h.like hcalls)))

theorem parameterNames_checked {params params' : List Value}
    (h : Forall₂ (R.Code W m .expression) params params') :
    Checked R.names
      (fun names names' => names' = names.map (R.rename m) ∧ ∀ a ∈ names, R.Allows m a)
      (Form.parameterNames params) (Form.parameterNames params') := by
  have hnames := Checked.mapM h fun _ _ => parameterName_checked hcalls
  unfold Form.parameterNames
  generalize params.mapM Form.parameterName = x at hnames
  generalize params'.mapM Form.parameterName = y at hnames
  cases hnames with
  | refused he => exact .refused he
  | ok hall =>
      refine .ok ?_
      induction hall with
      | nil => exact ⟨rfl, nofun⟩
      | cons hab _ ih =>
          obtain ⟨rfl, ha⟩ := hab
          exact ⟨congrArg _ ih.1, List.forall_mem_cons.2 ⟨ha, ih.2⟩⟩

theorem signature_checked {items items' : List Value}
    (h : Forall₂ (R.Code W m .expression) items items') :
    Checked R.names (fun s s' => s' = (R.rename m s.1, s.2.map (R.rename m)) ∧ R.Allows m s.1 ∧
      ∀ a ∈ s.2, R.Allows m a) (Form.signature items) (Form.signature items') := by
  cases h with
  | nil => exact .refused (.type (.refl _))
  | @cons v v' rest rest' hv hrest =>
      cases hsymbol : v.isSymbol with
      | true =>
          cases v with
          | symbol a =>
              obtain ⟨rfl, ha⟩ := hv.symbol_left
              refine (distinct_checked hrest).bind fun params params' hparams => ?_
              refine (parameterNames_checked hcalls hparams).bind ?_
              rintro names _ ⟨rfl, hnames⟩
              exact .ok ⟨rfl, ha, hnames⟩
          | _ => cases hsymbol
      | false =>
          rw [Form.signature_eq_error hsymbol,
            Form.signature_eq_error (hv.isSymbol_eq ▸ hsymbol)]
          exact .refused (.type (.refl _))

theorem pair_checked {v v' : Value} (h : R.Code W m .parts v v') :
    Checked R.names (fun p p' : Value × Value => R.Code W m .expression p.1 p'.1 ∧
      R.Code W m .expression p.2 p'.2) (Form.pair v) (Form.pair v') := by
  have hlike := h.like hcalls
  cases hlist : v.isList with
  | true =>
      cases v with
      | list i items =>
          obtain ⟨j, items', rfl, hitems⟩ := h.parts_left
          match hitems with
          | .nil => exact .refused (.type (.badBinding hlike))
          | .cons _ .nil => exact .refused (.type (.badBinding hlike))
          | .cons ha (.cons hb .nil) => exact .ok ⟨ha, hb⟩
          | .cons _ (.cons _ (.cons _ _)) => exact .refused (.type (.badBinding hlike))
      | _ => cases hlist
  | false =>
      rw [Form.pair_eq_error hlist, Form.pair_eq_error (h.isList_eq ▸ hlist)]
      exact .refused (.type (.badBinding hlike))

theorem pairs_checked {v v' : Value} (h : R.Code W m .rows v v') :
    Checked R.names (Forall₂ fun p p' : Value × Value => R.Code W m .expression p.1 p'.1 ∧
      R.Code W m .expression p.2 p'.2) (Form.pairs v) (Form.pairs v') := by
  cases hlist : v.isList with
  | true =>
      cases v with
      | list i items =>
          obtain ⟨j, items', rfl, hitems⟩ := h.rows_left
          exact Checked.mapM hitems fun _ _ => pair_checked hcalls
      | _ => cases hlist
  | false =>
      rw [Form.pairs_eq_error hlist, Form.pairs_eq_error (h.isList_eq ▸ hlist)]
      exact .refused (.type (.refl _))

theorem clause_checked {v v' : Value} (h : R.Code W m .parts v v') :
    Checked R.names (fun c c' : Value × List Value => R.Code W m .expression c.1 c'.1 ∧
      Forall₂ (R.Code W m .expression) c.2 c'.2) (Form.clause v) (Form.clause v') := by
  have hlike := h.like hcalls
  cases hlist : v.isList with
  | true =>
      cases v with
      | list i items =>
          obtain ⟨j, items', rfl, hitems⟩ := h.parts_left
          cases hitems with
          | nil => exact .refused (.type (.refl _))
          | cons ht hbody => exact .ok ⟨ht, hbody⟩
      | _ => cases hlist
  | false =>
      rw [Form.clause_eq_error hlist, Form.clause_eq_error (h.isList_eq ▸ hlist)]
      exact .refused (.type (.clauseNotList hlike))

theorem parse_define {a a' : Value} {as as' : List Value} (ha : R.Code W m .parts a a')
    (has : Forall₂ (R.Code W m .expression) as as') :
    Checked R.names (R.FormCode W m) (Form.parse .define (a :: as))
      (Form.parse .define (a' :: as')) := by
  cases hlist : a.isList with
  | true =>
      cases a with
      | list i items =>
          obtain ⟨j, items', rfl, hitems⟩ := ha.parts_left
          match has with
          | .nil => exact .refused (.arity 2 1)
          | .cons hb hbody =>
              refine (signature_checked hcalls hitems).map ?_
              rintro s _ ⟨rfl, hname, hparams⟩
              exact .defineProcedure hname hparams (.cons hb hbody)
      | _ => cases hlist
  | false =>
      have hlist' : a'.isList = false := ha.isList_eq ▸ hlist
      match has with
      | .nil =>
          rw [Form.parse_define_of_length_ne hlist (by simp),
            Form.parse_define_of_length_ne hlist' (by simp)]
          exact .refused (.arity _ _)
      | @List.Forall₂.cons _ _ _ e e' _ _ he .nil =>
          cases hsymbol : a.isSymbol with
          | true =>
              cases a with
              | symbol name =>
                  obtain ⟨rfl, hname⟩ := ha.symbol_left
                  exact .ok (.define hname he)
              | _ => cases hsymbol
          | false =>
              rw [Form.parse_define_eq_error hlist hsymbol,
                Form.parse_define_eq_error hlist' (ha.isSymbol_eq ▸ hsymbol)]
              exact .refused (.type (.refl _))
      | .cons _ (.cons _ hrest) =>
          rw [Form.parse_define_of_length_ne hlist (by simp),
            Form.parse_define_of_length_ne hlist' (by simp), List.length_cons,
            List.length_cons, List.length_cons, List.length_cons, hrest.length_eq]
          exact .refused (.arity _ _)

/-- Operands that correspond are read as forms with corresponding parts, or
refused alike. -/
theorem parse_form {k : Keyword} (hk : k ≠ .quote) {a a' : Value} {as as' : List Value}
    (ha : R.Code W m k.first a a') (has : Forall₂ (R.Code W m k.others) as as') :
    Checked R.names (R.FormCode W m) (Form.parse k (a :: as)) (Form.parse k (a' :: as')) := by
  cases k with
  | quote => exact absurd rfl hk
  | define => exact parse_define hcalls ha has
  | set => exact parse_set ha has
  | cond => exact .ok (.cond (.cons ha has))
  | ite =>
      cases has with
      | nil => exact .refused (.arity _ _)
      | cons hy has =>
          cases has with
          | nil => exact .ok (.ite ha hy .none)
          | cons hn has =>
              cases has with
              | nil => exact .ok (.ite ha hy (.some hn))
              | cons _ hrest =>
                  simp only [Form.parse, List.length_cons, hrest.length_eq]
                  exact .refused (.arity _ _)
  | begin => exact .ok (.sequence (.cons ha has))
  | letForm =>
      cases has with
      | nil => exact .refused (.eval (.refl _))
      | cons hb hbody =>
          refine (pairs_checked hcalls ha).map fun pairs pairs' hpairs => ?_
          exact .bind hpairs (.cons hb hbody)
  | lambda =>
      cases has with
      | nil => exact .refused (.arity _ _)
      | cons hbody has =>
          cases has with
          | nil =>
              exact (binders_checked ha).map fun params params' hparams => .lambda hparams hbody
          | cons _ hrest =>
              simp only [Form.parse, List.length_cons, hrest.length_eq]
              exact .refused (.arity _ _)

end

end Renaming

end TwinScheme

import TwinScheme.Proofs.Evaluator.Forms
import TwinScheme.Proofs.Evaluator.Indifference

/-!
# What checks give back

The checks of special forms and the table of primitives take apart what they are
given. What they give back are parts of it, or numbers and truth values. What they
refuse they refuse for the shape of a form, for the number of arguments or for the
kind of a value, with an error that shows at most a value they were given: only a
look-up reports a name as unbound.

Both are said here at once, of any property of values that lists pass on to their
elements. A property that says nothing leaves what is said of the errors. Of a primitive
it is said in two steps: what it does with the right number of arguments, and that it
refuses any other number.
-/

namespace TwinScheme

open List (Forall₂)

/-! ## Errors -/

/-- Whether an error reports a name as unbound. -/
def Error.isUnbound : Error → Bool
  | unbound _ => true
  | _ => false

theorem Error.isUnbound_within (expr : Value) (e : Error) :
    (e.within expr).isUnbound = e.isUnbound := by
  cases e with
  | eval fault c | type fault c =>
      cases c with
      | none =>
          rw [Error.within]
          split <;> rfl
      | some c => rfl
  | _ => rfl

/-- The values that the wording of a failure shows. -/
def EvalFault.shown : EvalFault → List Value
  | repeatedParameter name => [.symbol name]
  | _ => []

/-- The values that the wording of a type fault shows. -/
def TypeFault.shown : TypeFault → List Value
  | needsProcedure _ got | notApplicable got | parameterNotSymbol got | badBinding got
  | bindingNotSymbol got | clauseNotList got => [got]
  | _ => []

/-- An error of a check, which has no context yet. -/
inductive Error.Refusal (p : Value → Prop) : Error → Prop
  | eval {fault} : (∀ v ∈ fault.shown, p v) → Refusal p (.eval fault none)
  | type {fault} : (∀ v ∈ fault.shown, p v) → Refusal p (.type fault none)
  | arity (expected got : Nat) : Refusal p (.arity expected got)

theorem Error.Refusal.isUnbound {p : Value → Prop} {e : Error} (h : e.Refusal p) :
    e.isUnbound = false := by
  cases h <;> rfl

/-! ## Checks -/

/-- Gives something of one kind, or refuses values of another. -/
inductive Except.Yields {α : Type} (p : Value → Prop) (Q : α → Prop) : Except Error α → Prop
  | ok {a} : Q a → Yields p Q (.ok a)
  | error {e} : e.Refusal p → Yields p Q (.error e)

namespace Except.Yields

variable {α β : Type} {p : Value → Prop} {Q : α → Prop} {R : β → Prop} {r : Except Error α}

theorem of_eq_ok {a : α} (h : Yields p Q r) (hr : r = .ok a) : Q a := by
  subst hr
  cases h with
  | ok ha => exact ha

theorem of_eq_error {e : Error} (h : Yields p Q r) (hr : r = .error e) : e.Refusal p := by
  subst hr
  cases h with
  | error he => exact he

theorem type {fault : TypeFault} (h : fault.shown = []) :
    Yields p Q (.error (.type fault none)) :=
  .error (.type fun _ hv => absurd hv (h ▸ List.not_mem_nil))

theorem eval {fault : EvalFault} (h : fault.shown = []) :
    Yields p Q (.error (.eval fault none)) :=
  .error (.eval fun _ hv => absurd hv (h ▸ List.not_mem_nil))

theorem arity (expected got : Nat) : Yields p Q (.error (.arity expected got)) :=
  .error (.arity expected got)

theorem imp {Q' : α → Prop} (h : Yields p Q r) (hQ : ∀ a, Q a → Q' a) : Yields p Q' r := by
  cases h with
  | ok ha => exact .ok (hQ _ ha)
  | error he => exact .error he

theorem map {f : α → β} (h : Yields p Q r) (hf : ∀ a, Q a → R (f a)) : Yields p R (r.map f) := by
  cases h with
  | ok ha => exact .ok (hf _ ha)
  | error he => exact .error he

theorem bind {f : α → Except Error β} (h : Yields p Q r) (hf : ∀ a, Q a → Yields p R (f a)) :
    Yields p R (r >>= f) := by
  cases h with
  | ok ha => exact hf _ ha
  | error he => exact .error he

theorem mapM {S : α → β → Prop} {f : α → Except Error β} {as : List α}
    (hf : ∀ a ∈ as, Yields p (S a) (f a)) : Yields p (Forall₂ S as) (as.mapM f) := by
  induction as with
  | nil => exact .ok .nil
  | cons a as ih =>
      obtain ⟨ha, has⟩ := List.forall_mem_cons.1 hf
      rw [List.mapM_cons]
      exact ha.bind fun b hb => (ih has).bind fun bs hbs => .ok (.cons hb hbs)

end Except.Yields

/-- Gives something of one kind, or refuses values for what they are. It does not refuse
them for their number. -/
inductive Except.Decides {α : Type} (p : Value → Prop) (Q : α → Prop) : Except Error α → Prop
  | ok {a} : Q a → Decides p Q (.ok a)
  | eval {fault} : (∀ v ∈ fault.shown, p v) → Decides p Q (.error (.eval fault none))
  | type {fault} : (∀ v ∈ fault.shown, p v) → Decides p Q (.error (.type fault none))

namespace Except.Decides

variable {α β : Type} {p : Value → Prop} {Q : α → Prop} {R : β → Prop} {r : Except Error α}

theorem yields (h : Decides p Q r) : Yields p Q r := by
  cases h with
  | ok ha => exact .ok ha
  | eval hshown => exact .error (.eval hshown)
  | type hshown => exact .error (.type hshown)

theorem ne_arity (h : Decides p Q r) (expected got : Nat) :
    r ≠ .error (.arity expected got) := by
  rintro rfl
  cases h

/-- What is handed on without a value is the error. -/
theorem of_eq_error {e : Error} (h : Decides p Q r) (hr : r = .error e) :
    Decides p R (.error e) := by
  subst hr
  cases h with
  | eval hshown => exact .eval hshown
  | type hshown => exact .type hshown

theorem map {f : α → β} (h : Decides p Q r) (hf : ∀ a, Q a → R (f a)) :
    Decides p R (r.map f) := by
  cases h with
  | ok ha => exact .ok (hf _ ha)
  | eval hshown => exact .eval hshown
  | type hshown => exact .type hshown

theorem bind {f : α → Except Error β} (h : Decides p Q r) (hf : ∀ a, Q a → Decides p R (f a)) :
    Decides p R (r >>= f) := by
  cases h with
  | ok ha => exact hf _ ha
  | eval hshown => exact .eval hshown
  | type hshown => exact .type hshown

theorem foldlM {f : β → α → Except Error β} (hf : ∀ b a, R b → Decides p R (f b a))
    (as : List α) {b : β} (hb : R b) : Decides p R (as.foldlM f b) := by
  induction as generalizing b with
  | nil => exact .ok hb
  | cons a as ih =>
      rw [List.foldlM_cons]
      exact (hf b a hb).bind fun b' hb' => ih hb'

end Except.Decides

/-! ## Parts of values -/

/-- Whether a value is there before any run and stands for itself. -/
def Value.isConstant : Value → Bool
  | int _ | float _ | bool _ | primitive _ | unspecified => true
  | _ => false

theorem Value.isConstant_of_isNumber {v : Value} (h : v.isNumber = true) :
    v.isConstant = true := by
  cases v with
  | int | float => rfl
  | _ => cases h

/-- A property that constants have and that lists pass on. -/
structure Value.Hereditary (p : Value → Prop) : Prop where
  constant : ∀ {v : Value}, v.isConstant = true → p v
  item : ∀ {id items}, p (.list id items) → ∀ v ∈ items, p v

theorem Value.Hereditary.trivial : Value.Hereditary fun _ => True :=
  ⟨fun _ => True.intro, fun _ _ _ => True.intro⟩

/-- What the parts of a form are like; its parameters are distinct. -/
def Form.Over (p : Value → Prop) : Form → Prop
  | .quote datum => p datum
  | .define _ expr | .assign _ expr => p expr
  | .defineProcedure _ params body =>
    params.Nodup ∧ (∀ x ∈ params, p (.symbol x)) ∧ ∀ e ∈ body, p e
  | .ite test yes no => p test ∧ p yes ∧ ∀ e ∈ no, p e
  | .cond clauses => ∀ c ∈ clauses, p c
  | .sequence body => ∀ e ∈ body, p e
  | .bind pairs body => (∀ pair ∈ pairs, p pair.1 ∧ p pair.2) ∧ ∀ e ∈ body, p e
  | .lambda params body => (Form.symbols params).Nodup ∧ (∀ e ∈ params, p e) ∧ p body

/-- What the values in an outcome are like. -/
def Outcome.Over (p : Value → Prop) : Outcome → Prop
  | .value v => p v
  | .fresh items => ∀ v ∈ items, p v
  | .each f calls => p f ∧ ∀ args ∈ calls, ∀ a ∈ args, p a

section

variable {p : Value → Prop}

/-! ## Forms -/

namespace Form

theorem repeated?_mem {params : List Value} {seen : List String} {x : String}
    (h : repeated? seen params = some x) : Value.symbol x ∈ params := by
  induction params generalizing seen with
  | nil => cases h
  | cons v params ih =>
      cases v with
      | symbol y =>
          rw [repeated?] at h
          split at h
          · cases h
            exact List.mem_cons_self
          · exact List.mem_cons_of_mem _ (ih h)
      | _ => exact List.mem_cons_of_mem _ (ih h)

theorem distinct_yields {items : List Value} (h : ∀ v ∈ items, p v) :
    Except.Yields p (fun vs => vs = items ∧ (symbols items).Nodup) (distinct items) := by
  unfold distinct
  split
  · next x hx => exact .error (.eval (List.forall_mem_singleton.2 (h _ (repeated?_mem hx))))
  · next hx => exact .ok ⟨rfl, ((repeated?_eq_none_iff items []).1 hx).1⟩

theorem parameterNames_yields {params : List Value} (h : ∀ v ∈ params, p v) :
    Except.Yields p (fun names => params = names.map .symbol) (parameterNames params) := by
  refine (Except.Yields.mapM (S := fun v name => v = .symbol name) fun v hv => ?_).imp
    fun names hnames => List.forall₂_eq_eq_eq ▸ List.forall₂_map_right_iff.2 hnames
  cases v with
  | symbol name => exact .ok rfl
  | _ => exact .error (.type (List.forall_mem_singleton.2 (h _ hv)))

theorem binders_yields (hp : Value.Hereditary p) {params : Value} (h : p params) :
    Except.Yields p (fun vs => (symbols vs).Nodup ∧ ∀ v ∈ vs, p v) (binders params) := by
  cases params with
  | list id items =>
      refine (distinct_yields (hp.item h)).imp ?_
      rintro _ ⟨rfl, hnodup⟩
      exact ⟨hnodup, hp.item h⟩
  | _ => exact .type rfl

theorem signature_yields {items : List Value} (h : ∀ v ∈ items, p v) :
    Except.Yields p (fun s => s.2.Nodup ∧ ∀ x ∈ s.2, p (.symbol x)) (signature items) := by
  unfold signature
  split
  · next name params =>
    have hparams := (List.forall_mem_cons.1 h).2
    refine (distinct_yields hparams).bind ?_
    rintro _ ⟨rfl, hnodup⟩
    refine (parameterNames_yields hparams).bind ?_
    rintro names rfl
    rw [symbols_map_symbol] at hnodup
    exact .ok ⟨hnodup, fun x hx => hparams _ (List.mem_map_of_mem hx)⟩
  · exact .type rfl

theorem pair_yields (hp : Value.Hereditary p) {v : Value} (h : p v) :
    Except.Yields p (fun pair => p pair.1 ∧ p pair.2) (pair v) := by
  unfold pair
  split
  · have hitems := hp.item h
    exact .ok ⟨hitems _ List.mem_cons_self, hitems _ (List.mem_cons_of_mem _ List.mem_cons_self)⟩
  · exact .error (.type (List.forall_mem_singleton.2 h))

theorem pairs_yields (hp : Value.Hereditary p) {bindings : Value} (h : p bindings) :
    Except.Yields p (fun pairs => ∀ pair ∈ pairs, p pair.1 ∧ p pair.2) (pairs bindings) := by
  cases bindings with
  | list id items =>
      refine (Except.Yields.mapM fun v hv => pair_yields hp (hp.item h v hv)).imp ?_
      intro pairs hpairs pair hpair
      obtain ⟨_, _, hparts⟩ := exists_of_mem_right hpairs hpair
      exact hparts
  | _ => exact .type rfl

theorem clause_yields (hp : Value.Hereditary p) {c : Value} (h : p c) :
    Except.Yields p (fun parts => p parts.1 ∧ ∀ e ∈ parts.2, p e) (clause c) := by
  unfold clause
  split
  · exact .ok (List.forall_mem_cons.1 (hp.item h))
  · exact .type rfl
  · exact .error (.type (List.forall_mem_singleton.2 h))

theorem parse_yields (hp : Value.Hereditary p) (k : Keyword) {operands : List Value}
    (h : ∀ v ∈ operands, p v) : Except.Yields p (Form.Over p) (parse k operands) := by
  have hsecond : ∀ {a b : Value} {rest : List Value}, (∀ v ∈ a :: b :: rest, p v) → p b :=
    fun h => h _ (List.mem_cons_of_mem _ List.mem_cons_self)
  unfold parse
  split
  · exact .ok (h _ List.mem_cons_self)
  · exact .arity _ _
  · exact .ok (hsecond h)
  · obtain ⟨hsignature, hbody⟩ := List.forall_mem_cons.1 h
    exact (signature_yields (hp.item hsignature)).map fun s hs => ⟨hs.1, hs.2, hbody⟩
  · exact .type rfl
  · exact .arity _ _
  · exact .ok (hsecond h)
  · exact .type rfl
  · exact .arity _ _
  · exact .ok ⟨h _ List.mem_cons_self, hsecond h, nofun⟩
  · obtain ⟨ht, hrest⟩ := List.forall_mem_cons.1 h
    refine .ok ⟨ht, hrest _ List.mem_cons_self, ?_⟩
    rintro e ⟨⟩
    exact hsecond hrest
  · exact .arity _ _
  · exact .ok h
  · exact .ok h
  · exact .arity _ _
  · exact .eval rfl
  · obtain ⟨hbindings, hbody⟩ := List.forall_mem_cons.1 h
    exact (pairs_yields hp hbindings).map fun pairs hpairs => ⟨hpairs, hbody⟩
  · exact (binders_yields hp (h _ List.mem_cons_self)).map fun vs hvs =>
      ⟨hvs.1, hvs.2, hsecond h⟩
  · exact .arity _ _

end Form

theorem Lexical.binderNames_yields {pairs : List (Value × Value)}
    (h : ∀ pair ∈ pairs, p pair.1 ∧ p pair.2) :
    Except.Yields p (fun named => ∀ pair ∈ named, p (.symbol pair.1) ∧ p pair.2)
      (pairs.mapM Lexical.binderName) := by
  refine (Except.Yields.mapM
    (S := fun _ (pair : String × Value) => p (.symbol pair.1) ∧ p pair.2) ?_).imp ?_
  · intro pair hpair
    unfold binderName
    split
    · exact .ok (h _ hpair)
    · exact .error (.type (List.forall_mem_singleton.2 (h _ hpair).1))
  · intro named hnamed pair hpair
    obtain ⟨_, _, hparts⟩ := exists_of_mem_right hnamed hpair
    exact hparts

/-! ## Primitives -/

namespace Arithmetic

theorem operands_decides (q : Primitive) (a b : Value) :
    Except.Decides p (fun _ => True) (operands q a b) := by
  unfold operands
  split
  · exact .ok True.intro
  · split
    · exact .ok True.intro
    · exact .type (List.forall_mem_nil _)

theorem exact_decides (q : Primitive) (n : Int) :
    Except.Decides p (·.isConstant = true) (exact q n) := by
  unfold exact
  split
  · exact .ok rfl
  · exact .eval (List.forall_mem_nil _)

theorem combine_decides (q : Primitive) (f : Int → Int → Int) (g : Float → Float → Float)
    (a b : Value) : Except.Decides p (·.isConstant = true) (combine q f g a b) := by
  unfold combine
  split
  · exact exact_decides q _
  · exact .ok rfl
  · next e he => exact (operands_decides q a b).of_eq_error he

theorem compare_decides (q : Primitive) (f : Int → Int → Bool) (g : Float → Float → Bool)
    (a b : Value) : Except.Decides p (·.isConstant = true) (compare q f g a b) := by
  unfold compare
  split
  · exact .ok rfl
  · exact .ok rfl
  · next e he => exact (operands_decides q a b).of_eq_error he

theorem divide_decides (a b : Value) : Except.Decides p (·.isConstant = true) (divide a b) := by
  unfold divide
  split
  · split
    · exact .eval (List.forall_mem_nil _)
    · split <;> exact .ok rfl
  · exact .ok rfl
  · next e he => exact (operands_decides .div a b).of_eq_error he

theorem sum_decides (first : Value) (rest : List Value) :
    Except.Decides p (·.isConstant = true) (sum (first :: rest)) := by
  rw [sum]
  split
  · next hfirst =>
    exact .foldlM (fun _ _ _ => combine_decides _ _ _ _ _) _
      (Value.isConstant_of_isNumber hfirst)
  · exact .type (List.forall_mem_nil _)

theorem magnitude_decides (a : Value) :
    Except.Decides p (·.isConstant = true) (magnitude a) := by
  unfold magnitude
  split
  · exact exact_decides .abs _
  · exact .ok rfl
  · exact .type (List.forall_mem_nil _)

theorem round_decides (a : Value) : Except.Decides p (·.isConstant = true) (round a) := by
  unfold round
  split
  · exact .ok rfl
  · exact .ok rfl
  · exact .type (List.forall_mem_nil _)

/-- The best of some numbers is one of them. -/
theorem extreme_decides (q : Primitive) (better : Float → Float → Bool) (first : Value)
    (rest : List Value) :
    Except.Decides p (·.isConstant = true) (extreme q better (first :: rest)) := by
  unfold extreme
  split
  · exact .type (List.forall_mem_nil _)
  · next hmap => simp [Option.bind_eq_some_iff] at hmap
  · next best others hmap =>
    refine .ok ?_
    split
    · rfl
    · exact Value.isConstant_of_isNumber
        (isNumber_of_mem_imaged hmap _ (mem_of_foldl_better better best others))

end Arithmetic

namespace Lists

theorem first_decides (hp : Value.Hereditary p) {a : Value} (h : p a) :
    Except.Decides p p (first a) := by
  unfold first
  split
  · exact .ok (hp.item h _ List.mem_cons_self)
  · exact .eval (List.forall_mem_nil _)
  · exact .type (List.forall_mem_nil _)

theorem rest_decides (hp : Value.Hereditary p) {a : Value} (h : p a) :
    Except.Decides p (fun vs => ∀ v ∈ vs, p v) (rest a) := by
  unfold rest
  split
  · exact .ok (List.forall_mem_cons.1 (hp.item h)).2
  · exact .eval (List.forall_mem_nil _)
  · exact .type (List.forall_mem_nil _)

theorem prepend_decides (hp : Value.Hereditary p) {a b : Value} (ha : p a) (hb : p b) :
    Except.Decides p (fun vs => ∀ v ∈ vs, p v) (prepend a b) := by
  unfold prepend
  split
  · exact .ok (List.forall_mem_cons.2 ⟨ha, hp.item hb⟩)
  · exact .type (List.forall_mem_nil _)

theorem length_decides (a : Value) : Except.Decides p (·.isConstant = true) (length a) := by
  unfold length
  split
  · exact .ok rfl
  · exact .type (List.forall_mem_nil _)

theorem mem_of_mapM_items? (hp : Value.Hereditary p) {args : List Value}
    {lists : List (List Value)} (h : ∀ a ∈ args, p a) (hm : args.mapM Value.items? = some lists) :
    ∀ items ∈ lists, ∀ v ∈ items, p v := by
  induction args generalizing lists with
  | nil =>
      cases hm
      nofun
  | cons a args ih =>
      obtain ⟨ha, hargs⟩ := List.forall_mem_cons.1 h
      simp only [List.mapM_cons, Option.bind_eq_bind, Option.bind_eq_some_iff, Option.pure_def,
        Option.some.injEq] at hm
      obtain ⟨items, hitems, rest, hrest, rfl⟩ := hm
      refine List.forall_mem_cons.2 ⟨?_, ih hargs hrest⟩
      cases a with
      | list id items' =>
          cases hitems
          exact hp.item ha
      | _ => cases hitems

theorem contents_decides (hp : Value.Hereditary p) (q : Primitive) {args : List Value}
    (h : ∀ a ∈ args, p a) :
    Except.Decides p (fun lists => ∀ items ∈ lists, ∀ v ∈ items, p v) (contents q args) := by
  unfold contents
  split
  · next lists hm => exact .ok (mem_of_mapM_items? hp h hm)
  · exact .type (List.forall_mem_nil _)

theorem mem_of_mem_rows {lists : List (List Value)} {row : List Value} (hrow : row ∈ rows lists)
    {v : Value} (hv : v ∈ row) : ∃ items ∈ lists, v ∈ items := by
  obtain ⟨i, _, rfl⟩ := List.mem_map.1 hrow
  obtain ⟨items, hitems, hget⟩ := List.mem_filterMap.1 hv
  exact ⟨items, hitems, List.mem_of_getElem? hget⟩

theorem mapCalls_decides (hp : Value.Hereditary p) {f : Value} {lists : List Value} (hf : p f)
    (hlists : ∀ a ∈ lists, p a) :
    Except.Decides p (Outcome.Over p) (mapCalls (f :: lists)) := by
  rw [mapCalls]
  split
  · refine (contents_decides hp .map hlists).map fun lists hitems => ⟨hf, ?_⟩
    intro row hrow v hv
    obtain ⟨items, hmem, hv⟩ := mem_of_mem_rows hrow hv
    exact hitems items hmem v hv
  · exact .type (List.forall_mem_singleton.2 hf)

end Lists

namespace Primitive

/-- A result on some arguments that goes by an arity: their number is refused if it does
not fit, with the number that the arity expects, and otherwise it is not complained of. -/
structure Counts (p : Value → Prop) (arity : Arity) (args : List Value)
    (r : Except Error Outcome) : Prop where
  refuses : arity.admits args.length = false →
    r = .error (.arity arity.expected args.length)
  decides : arity.admits args.length = true → Except.Decides p (Outcome.Over p) r

variable {args : List Value}

theorem Counts.yields {arity : Arity} {r : Except Error Outcome} (h : Counts p arity args r) :
    Except.Yields p (Outcome.Over p) r := by
  cases hfits : arity.admits args.length with
  | false =>
      rw [h.refuses hfits]
      exact .arity _ _
  | true => exact (h.decides hfits).yields

theorem unary_counts {f : Value → Except Error Outcome}
    (hf : ∀ a, p a → Except.Decides p (Outcome.Over p) (f a)) (h : ∀ a ∈ args, p a) :
    Counts p (.exactly 1) args (unary f args) := by
  unfold unary
  split
  · exact ⟨nofun, fun _ => hf _ (h _ List.mem_cons_self)⟩
  · next hargs =>
    refine ⟨fun _ => rfl, fun hfits => ?_⟩
    obtain ⟨a, rfl⟩ := List.length_eq_one_iff.1 (beq_iff_eq.1 hfits)
    exact absurd rfl (hargs a)

theorem binary_counts {f : Value → Value → Except Error Outcome}
    (hf : ∀ a b, p a → p b → Except.Decides p (Outcome.Over p) (f a b)) (h : ∀ a ∈ args, p a) :
    Counts p (.exactly 2) args (binary f args) := by
  unfold binary
  split
  · refine ⟨nofun, fun _ => hf _ _ (h _ List.mem_cons_self) ?_⟩
    exact h _ (List.mem_cons_of_mem _ List.mem_cons_self)
  · next hargs =>
    refine ⟨fun _ => rfl, fun hfits => ?_⟩
    obtain ⟨a, b, rfl⟩ := List.length_eq_two.1 (beq_iff_eq.1 hfits)
    exact absurd rfl (hargs a b)

theorem some_counts {f : List Value → Except Error Outcome} (hnil : f [] = .error (.arity 1 0))
    (hf : ∀ a rest, Except.Decides p (Outcome.Over p) (f (a :: rest))) :
    Counts p (.atLeast 1) args (f args) := by
  cases args with
  | nil => exact ⟨fun _ => hnil, nofun⟩
  | cons a rest => exact ⟨nofun, fun _ => hf a rest⟩

theorem any_counts {r : Except Error Outcome} (hr : Except.Decides p (Outcome.Over p) r) :
    Counts p .any args r :=
  ⟨nofun, fun _ => hr⟩

/-- A procedure goes by its arity in the table, but for `map` on a procedure alone. What
it gives is a constant or was given to it. -/
theorem run_counts (hp : Value.Hereditary p) (q : Primitive) (h : ∀ a ∈ args, p a)
    (hlists : q = .map → args.length ≠ 1) : Counts p q.arity args (q.run args) := by
  have hconstant : ∀ {r : Except Error Value}, Except.Decides p (·.isConstant = true) r →
      Except.Decides p (Outcome.Over p) (r.map .value) :=
    fun hr => hr.map fun v hv => hp.constant hv
  have hfresh : ∀ {r : Except Error (List Value)}, Except.Decides p (fun vs => ∀ v ∈ vs, p v) r →
      Except.Decides p (Outcome.Over p) (r.map .fresh) :=
    fun hr => hr.map fun vs hvs => hvs
  cases q with
  | add => exact some_counts rfl fun a rest => hconstant (Arithmetic.sum_decides a rest)
  | sub | mul =>
      exact binary_counts (fun _ _ _ _ => hconstant (Arithmetic.combine_decides _ _ _ _ _)) h
  | div => exact binary_counts (fun _ _ _ _ => hconstant (Arithmetic.divide_decides _ _)) h
  | abs => exact unary_counts (fun _ _ => hconstant (Arithmetic.magnitude_decides _)) h
  | round => exact unary_counts (fun _ _ => hconstant (Arithmetic.round_decides _)) h
  | max | min =>
      exact some_counts rfl fun a rest => hconstant (Arithmetic.extreme_decides _ _ a rest)
  | greater | less | atLeast | atMost | numberEqual =>
      exact binary_counts (fun _ _ _ _ => hconstant (Arithmetic.compare_decides _ _ _ _ _)) h
  | identical | equal => exact binary_counts (fun _ _ _ _ => .ok (hp.constant rfl)) h
  | not | isList | isNull | isNumber | isSymbol | isProcedure =>
      exact unary_counts (fun _ _ => .ok (hp.constant rfl)) h
  | car => exact unary_counts (fun _ ha => (Lists.first_decides hp ha).map fun _ hv => hv) h
  | cdr => exact unary_counts (fun _ ha => hfresh (Lists.rest_decides hp ha)) h
  | cons => exact binary_counts (fun _ _ ha hb => hfresh (Lists.prepend_decides hp ha hb)) h
  | append =>
      refine any_counts ((Lists.contents_decides hp .append h).map fun lists hlists v hv => ?_)
      obtain ⟨items, hitems, hv⟩ := List.mem_flatten.1 hv
      exact hlists items hitems v hv
  | list => exact any_counts (.ok h)
  | length => exact unary_counts (fun _ _ => hconstant (Lists.length_decides _)) h
  | map =>
      match args with
      | [] => exact ⟨fun _ => rfl, nofun⟩
      | [f] => exact absurd rfl (hlists rfl)
      | f :: a :: rest =>
          obtain ⟨hf, hrest⟩ := List.forall_mem_cons.1 h
          exact ⟨nofun, fun _ => Lists.mapCalls_decides hp hf hrest⟩

theorem run_yields (hp : Value.Hereditary p) (q : Primitive) (h : ∀ a ∈ args, p a) :
    Except.Yields p (Outcome.Over p) (q.run args) := by
  by_cases hlists : q = .map → args.length ≠ 1
  · exact (run_counts hp q h hlists).yields
  · obtain ⟨rfl, hone⟩ := Classical.not_imp.1 hlists
    obtain ⟨f, rfl⟩ := List.length_eq_one_iff.1 (Decidable.not_not.1 hone)
    exact (Lists.mapCalls_decides hp (h f List.mem_cons_self) (List.forall_mem_nil _)).yields

theorem call_yields (hp : Value.Hereditary p) (q : Primitive) (h : ∀ a ∈ args, p a) :
    Except.Yields p (Outcome.Over p) (q.call args) := by
  refine Except.Yields.bind (Q := fun _ => True) ?_ fun _ _ => q.run_yields hp h
  unfold Arity.check
  split
  · exact .ok True.intro
  · exact .arity _ _

end Primitive

end

/-! ## No name is unbound -/

/-- Does not fail for an unbound name. -/
inductive Except.Bound {α : Type} : Except Error α → Prop
  | ok (a : α) : Except.Bound (.ok a)
  | error {e : Error} : e.isUnbound = false → Except.Bound (.error e)

namespace Except.Bound

variable {α β : Type} {r : Except Error α}

theorem isUnbound {e : Error} (h : Except.Bound (.error e : Except Error α)) :
    e.isUnbound = false := by
  cases h with
  | error he => exact he

theorem map (h : Except.Bound r) (f : α → β) : Except.Bound (r.map f) := by
  cases h with
  | ok a => exact .ok (f a)
  | error he => exact .error he

theorem of_yields {p : Value → Prop} {Q : α → Prop} (h : Except.Yields p Q r) :
    Except.Bound r := by
  cases h with
  | ok => exact .ok _
  | error he => exact .error he.isUnbound

end Except.Bound

theorem Form.parameterNames_bound (params : List Value) :
    Except.Bound (Form.parameterNames params) :=
  .of_yields (Form.parameterNames_yields (p := fun _ => True) fun _ _ => True.intro)

theorem Form.clause_bound (c : Value) : Except.Bound (Form.clause c) :=
  .of_yields (Form.clause_yields .trivial True.intro)

theorem Form.parse_bound (k : Keyword) (operands : List Value) :
    Except.Bound (Form.parse k operands) :=
  .of_yields (Form.parse_yields .trivial k fun _ _ => True.intro)

theorem Lexical.binderNames_bound (pairs : List (Value × Value)) :
    Except.Bound (pairs.mapM Lexical.binderName) :=
  .of_yields (Lexical.binderNames_yields (p := fun _ => True) fun _ _ => ⟨True.intro, True.intro⟩)

/-- A primitive does not report an unbound name. -/
theorem Primitive.call_bound (q : Primitive) (args : List Value) : Except.Bound (q.call args) :=
  .of_yields (q.call_yields .trivial fun _ _ => True.intro)

end TwinScheme

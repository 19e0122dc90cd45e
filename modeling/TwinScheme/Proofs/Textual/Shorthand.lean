import TwinScheme.Proofs.Evaluator.Shorthand
import TwinScheme.Proofs.Textual.Simultaneous

/-!
# The shorthand for procedures under substitution

A `lambda` takes any expression for a parameter, since an enclosing call may have
put an argument in the place of a name. The shorthand for a procedure insists on
symbols. So the two forms do not do the same under substitution: within a
procedure that has one of the parameters for its own, the shorthand fails where
the `lambda` makes a procedure.

What an enclosing call does to the parameters decides, and there is little it can
do. Names other than its own stay. Its own becomes an expression for the argument,
which is no symbol. A list headed by `quote` is kept as it is, and that may be the
signature of a procedure of that name or the parameters of a `lambda`. A symbol
that is repeated after all that is an error in either form.
-/

namespace TwinScheme

/-! ## What the two forms do -/

theorem Bindings.eq_of_insert_eq {bindings : Bindings} {name : String} {a b : Value}
    (h : bindings.insert name a = bindings.insert name b) : a = b := by
  have hget := congrArg (Bindings.get? · name) h
  rw [Bindings.get?_insert, Bindings.get?_insert, if_pos rfl, if_pos rfl] at hget
  exact Option.some.inj hget

/-- What two definitions defined are the same procedures. -/
theorem SameDefinition.sameProcedure {m m' : Memory Bindings} {before : Bindings}
    {f : String} {g g' : Value}
    (h : SameDefinition .textual before () f (.ok .unspecified, m) (.ok .unspecified, m'))
    (hm : m.bound = before.insert f g) (hm' : m'.bound = before.insert f g') :
    g.SameProcedure g' := by
  cases h with
  | defined hsame ha ha' =>
      obtain rfl := Bindings.eq_of_insert_eq (ha.symm.trans hm)
      obtain rfl := Bindings.eq_of_insert_eq (ha'.symm.trans hm')
      exact hsame

namespace Textual

/-- The parameters of a shorthand and those of a `lambda` are refused both, or are
the same names. -/
inductive TakenAlike (params params' : List Value) : Prop
  | refused : ¬(Form.symbols params).Nodup → ¬(Form.symbols params').Nodup →
      TakenAlike params params'
  | names : (Form.symbols params).Nodup → (∀ p ∈ params, p.isSymbol = true) →
      params.map Value.tree = params'.map Value.tree → TakenAlike params params'

section

variable (limit left : Nat) (i j k : Identity) (f : String) {params : List Value}

theorem runFrom_shorthand_ok (m : Memory Bindings) (hnodup : (Form.symbols params).Nodup)
    (hsymbols : ∀ p ∈ params, p.isSymbol = true) (b : Value) (body : List Value) (l : Identity) :
    ∃ supply id made, made.tree = (sequenced l (b :: body)).tree ∧
      Eval.runFrom m
          (Scoping.textual.eval limit (left + 1) () (shorthand i j f params (b :: body))) =
        (.ok .unspecified, ⟨supply, m.bound.insert f (.lambda id params made)⟩) := by
  obtain ⟨names, rfl⟩ := Form.exists_eq_map_symbol hsymbols
  rw [Scoping.eval_shorthand, Form.distinctNames_of_nodup hnodup, Form.parameterNames_symbols]
  exact ⟨_, _, _, tree_single l m.supply (b :: body), rfl⟩

theorem runFrom_shorthand_error (m : Memory Bindings)
    (h : ¬((Form.symbols params).Nodup ∧ ∀ p ∈ params, p.isSymbol = true)) (b : Value)
    (body : List Value) :
    ∃ e, e.kind = (if (Form.symbols params).Nodup then .type else .eval) ∧
      Eval.runFrom m
          (Scoping.textual.eval limit (left + 1) () (shorthand i j f params (b :: body))) =
        (.error e, m) := by
  rw [Scoping.eval_shorthand]
  by_cases hnodup : (Form.symbols params).Nodup
  · obtain ⟨e, he, hkind⟩ := Form.parameterNames_of_not_isSymbol fun hall => h ⟨hnodup, hall⟩
    rw [Form.distinctNames_of_nodup hnodup, he, if_pos hnodup]
    exact ⟨e, hkind, rfl⟩
  · obtain ⟨e, he, hkind⟩ := Form.distinctNames_of_not_nodup hnodup
    rw [he, if_neg hnodup]
    exact ⟨e, hkind, rfl⟩

theorem runFrom_spelledOut_ok (m : Memory Bindings) (hnodup : (Form.symbols params).Nodup)
    (body : Value) :
    ∃ supply id, Eval.runFrom m
        (Scoping.textual.eval limit (left + 2) () (spelledOut i j k f params body)) =
      (.ok .unspecified, ⟨supply, m.bound.insert f (.lambda id params body)⟩) := by
  rw [Scoping.eval_spelledOut, Form.distinct_of_nodup hnodup]
  exact ⟨_, _, rfl⟩

theorem runFrom_spelledOut_error (m : Memory Bindings) (h : ¬(Form.symbols params).Nodup)
    (body : Value) :
    ∃ e, e.kind = .eval ∧ Eval.runFrom m
        (Scoping.textual.eval limit (left + 2) () (spelledOut i j k f params body)) =
      (.error e, m) := by
  obtain ⟨e, he, hkind⟩ := Form.distinct_of_not_nodup h
  rw [Scoping.eval_spelledOut, he]
  exact ⟨e, hkind, rfl⟩

end

section

variable (limit left : Nat) {m m' : Memory Bindings} (i j i' j' k' l : Identity) (f : String)
  {params params' : List Value} {b c : Value} {body : List Value}

theorem TakenAlike.sameDefinition (h : TakenAlike params params') (hm : m'.bound = m.bound)
    (hbody : (sequenced l (b :: body)).tree = c.tree) :
    SameDefinition .textual m.bound () f
      (Eval.runFrom m (Scoping.textual.eval limit (left + 2) ()
        (shorthand i j f params (b :: body))))
      (Eval.runFrom m' (Scoping.textual.eval limit (left + 2) ()
        (spelledOut i' j' k' f params' c))) := by
  cases h with
  | refused hrefused hrefused' =>
      obtain ⟨e, hkind, hshort⟩ := runFrom_shorthand_error limit (left + 1) i j f m
        (fun h => hrefused h.1) b body
      obtain ⟨e', hkind', hlong⟩ :=
        runFrom_spelledOut_error limit left i' j' k' f m' hrefused' c
      rw [if_neg hrefused] at hkind
      rw [hshort, hlong]
      exact .failed (hkind.trans hkind'.symm) rfl hm
  | names hnodup hsymbols htree =>
      have hnodup' : (Form.symbols params').Nodup := Form.symbols_congr htree ▸ hnodup
      obtain ⟨supply, id, made, hmade, hshort⟩ :=
        runFrom_shorthand_ok limit (left + 1) i j f m hnodup hsymbols b body l
      obtain ⟨supply', id', hlong⟩ :=
        runFrom_spelledOut_ok limit left i' j' k' f m' hnodup' c
      rw [hshort, hlong, hm]
      exact .defined (.lambda htree (hmade.trans hbody)) rfl rfl

/-- No other parameters are taken alike: a `lambda` refuses nothing but a repeated
symbol, and the shorthand refuses that with an error of the same kind and everything
else with another. -/
theorem takenAlike_of_sameDefinition
    (h : SameDefinition .textual m.bound () f
      (Eval.runFrom m (Scoping.textual.eval limit (left + 2) ()
        (shorthand i j f params (b :: body))))
      (Eval.runFrom m' (Scoping.textual.eval limit (left + 2) ()
        (spelledOut i' j' k' f params' c)))) (hm : m'.bound = m.bound) :
    TakenAlike params params' := by
  by_cases hnodup' : (Form.symbols params').Nodup
  · obtain ⟨supply', id', hlong⟩ := runFrom_spelledOut_ok limit left i' j' k' f m' hnodup' c
    rw [hlong, hm] at h
    by_cases hparams : (Form.symbols params).Nodup ∧ ∀ p ∈ params, p.isSymbol = true
    · obtain ⟨hnodup, hsymbols⟩ := hparams
      obtain ⟨supply, id, made, -, hshort⟩ :=
        runFrom_shorthand_ok limit (left + 1) i j f m hnodup hsymbols b body 0
      rw [hshort] at h
      cases h.sameProcedure rfl rfl with
      | lambda htree _ => exact .names hnodup hsymbols htree
    · obtain ⟨e, -, hshort⟩ := runFrom_shorthand_error limit (left + 1) i j f m hparams b body
      rw [hshort] at h
      cases h
  · obtain ⟨e', hkind', hlong⟩ := runFrom_spelledOut_error limit left i' j' k' f m' hnodup' c
    rw [hlong] at h
    refine .refused (fun hnodup => ?_) hnodup'
    by_cases hsymbols : ∀ p ∈ params, p.isSymbol = true
    · obtain ⟨supply, id, made, -, hshort⟩ :=
        runFrom_shorthand_ok limit (left + 1) i j f m hnodup hsymbols b body 0
      rw [hshort] at h
      cases h
    · obtain ⟨e, hkind, hshort⟩ := runFrom_shorthand_error limit (left + 1) i j f m
        (fun h => hsymbols h.2) b body
      rw [hshort] at h
      cases h with
      | failed hsame =>
          rw [hkind, hkind', if_pos hnodup] at hsame
          cases hsame

end

/-! ## What an enclosing call does to the two forms -/

variable {x f : String} {r : Value}

theorem only_of_ne {y : String} (h : x ≠ y) : only x r y = none :=
  if_neg h.symm

theorem substitute_of_ne {y : String} (h : x ≠ y) :
    substitute (only x r) (.symbol y) = .symbol y := by
  rw [substitute_symbol, only_of_ne h]
  rfl

theorem substitute_keyword {k : Keyword} (h : x ≠ k.name) (hk : k ≠ .quote) (id : Identity)
    (operands : List Value) : substitute (only x r) (k.form id operands) =
      k.form id (operands.map (substitute (only x r))) := by
  have hq : isQuotation (.symbol k.name :: operands) = false := by
    cases k with
    | quote => exact absurd rfl hk
    | _ => rfl
  rw [Keyword.form, substitute_list id hq, List.map_cons, substitute_of_ne h]
  rfl

/-- A signature is kept as it is if it is a quotation. -/
theorem substitute_shorthand (hf : x ≠ f) (hdefine : x ≠ Keyword.define.name) (i j : Identity)
    (params body : List Value) : substitute (only x r) (shorthand i j f params body) =
      shorthand i j f
        (if f = Keyword.quote.name then params else params.map (substitute (only x r)))
        (body.map (substitute (only x r))) := by
  rw [shorthand, substitute_keyword hdefine (by decide), List.map_cons]
  split
  case isTrue h =>
      have hq : isQuotation (.symbol f :: params) = true := beq_iff_eq.2 h
      rw [substitute_quotation j hq]
      rfl
  case isFalse h =>
      have hq : isQuotation (.symbol f :: params) = false := beq_eq_false_iff_ne.2 h
      rw [substitute_list j hq, List.map_cons, substitute_of_ne hf]
      rfl

/-- So are the parameters of a `lambda`. -/
theorem substitute_spelledOut (hf : x ≠ f) (hdefine : x ≠ Keyword.define.name)
    (hlambda : x ≠ Keyword.lambda.name) (i j k : Identity) (params : List Value) (body : Value) :
    substitute (only x r) (spelledOut i j k f params body) =
      spelledOut i j k f
        (if isQuotation params then params else params.map (substitute (only x r)))
        (substitute (only x r) body) := by
  rw [spelledOut, substitute_keyword hdefine (by decide), List.map_cons, List.map_cons,
    List.map_nil, substitute_of_ne hf, substitute_keyword hlambda (by decide), List.map_cons,
    List.map_cons, List.map_nil]
  cases hq : isQuotation params with
  | true =>
      rw [substitute_quotation k hq]
      rfl
  | false =>
      rw [substitute_list k hq]
      rfl

theorem substitute_sequenced (hbegin : x ≠ Keyword.begin.name) (l : Identity)
    (body : List Value) : substitute (only x r) (sequenced l body) =
      sequenced l (body.map (substitute (only x r))) := by
  have hmany : ∀ body, substitute (only x r) (Keyword.begin.form l body) =
      Keyword.begin.form l (body.map (substitute (only x r))) :=
    substitute_keyword hbegin (by decide) l
  cases body with
  | nil => exact hmany []
  | cons b rest =>
      cases rest with
      | nil => rfl
      | cons c rest => exact hmany (b :: c :: rest)

theorem tree_sequenced_congr {body body' : List Value}
    (h : body.map Value.tree = body'.map Value.tree) (l : Identity) :
    (sequenced l body).tree = (sequenced l body').tree := by
  have hmany : (Keyword.begin.form l body).tree = (Keyword.begin.form l body').tree := by
    rw [Keyword.form, Keyword.form, Value.tree_list, Value.tree_list, List.map_cons,
      List.map_cons, h]
  cases body with
  | nil =>
      obtain rfl := List.map_eq_nil_iff.1 h.symm
      rfl
  | cons b rest =>
      obtain ⟨b', rest', rfl, hb, hrest⟩ := List.map_eq_cons_iff.1 h.symm
      cases rest with
      | nil =>
          obtain rfl := List.map_eq_nil_iff.1 hrest
          exact hb.symm
      | cons c rest =>
          obtain ⟨c', rest', rfl, -⟩ := List.map_eq_cons_iff.1 hrest
          exact hmany

/-- What has the tree of a list with a symbol for its head is one. -/
theorem exists_headed {t : Value} {id : Identity} {name : String} {rest : List Value}
    (h : t.tree = (Value.list id (.symbol name :: rest)).tree) :
    ∃ id' rest', t = .list id' (.symbol name :: rest') ∧
      rest'.map Value.tree = rest.map Value.tree := by
  rw [Value.tree_list, List.map_cons] at h
  obtain ⟨id', items, rfl, hitems⟩ := Value.exists_of_tree_eq_list h
  obtain ⟨head, rest', rfl, hhead, hrest⟩ := List.map_eq_cons_iff.1 hitems
  obtain rfl := Value.eq_of_tree_eq rfl hhead
  exact ⟨id', rest', rfl, hrest⟩

theorem exists_shorthand {t : Value} {i j : Identity} {params body : List Value}
    (h : t.tree = (shorthand i j f params body).tree) :
    ∃ i' j' params' body', t = shorthand i' j' f params' body' ∧
      params'.map Value.tree = params.map Value.tree ∧
      body'.map Value.tree = body.map Value.tree := by
  obtain ⟨i', operands, rfl, hoperands⟩ := exists_headed h
  obtain ⟨signature, body', rfl, hsignature, hbody⟩ := List.map_eq_cons_iff.1 hoperands
  obtain ⟨j', params', rfl, hparams⟩ := exists_headed hsignature
  exact ⟨i', j', params', body', rfl, hparams, hbody⟩

theorem exists_pair {items : List Value} {a b : Value}
    (h : items.map Value.tree = [a, b].map Value.tree) :
    ∃ a' b', items = [a', b'] ∧ a'.tree = a.tree ∧ b'.tree = b.tree := by
  obtain ⟨a', rest, rfl, ha, hrest⟩ := List.map_eq_cons_iff.1 h
  obtain ⟨b', nothing, rfl, hb, hnothing⟩ := List.map_eq_cons_iff.1 hrest
  obtain rfl := List.map_eq_nil_iff.1 hnothing
  exact ⟨a', b', rfl, ha, hb⟩

theorem exists_spelledOut {t : Value} {i j k : Identity} {params : List Value} {body : Value}
    (h : t.tree = (spelledOut i j k f params body).tree) :
    ∃ i' j' k' params' body', t = spelledOut i' j' k' f params' body' ∧
      params'.map Value.tree = params.map Value.tree ∧ body'.tree = body.tree := by
  obtain ⟨i', operands, rfl, hoperands⟩ := exists_headed h
  obtain ⟨name, proc, rfl, hname, hproc⟩ := exists_pair hoperands
  obtain rfl : name = .symbol f := Value.eq_of_tree_eq rfl hname
  obtain ⟨j', parts, rfl, hparts⟩ := exists_headed hproc
  obtain ⟨binders, body', rfl, hbinders, hbody⟩ := exists_pair hparts
  rw [Value.tree_list] at hbinders
  obtain ⟨k', params', rfl, hparams⟩ := Value.exists_of_tree_eq_list hbinders
  exact ⟨i', j', k', params', body', rfl, hparams, hbody⟩

/-! ## Which parameters are taken alike after the call -/

theorem TakenAlike.congr {params params' made made' : List Value}
    (h : made.map Value.tree = params.map Value.tree)
    (h' : made'.map Value.tree = params'.map Value.tree) (hmade : TakenAlike made made') :
    TakenAlike params params' := by
  cases hmade with
  | refused hrefused hrefused' =>
      rw [Form.symbols_congr h] at hrefused
      rw [Form.symbols_congr h'] at hrefused'
      exact .refused hrefused hrefused'
  | names hnodup hsymbols htree =>
      rw [Form.symbols_congr h] at hnodup
      exact .names hnodup ((Form.forall_isSymbol_congr h).1 hsymbols)
        (h.symm.trans (htree.trans h'))

/-- A name of a parameter survives where no expression was put in its place. -/
theorem isSymbol_substitute (hr : r.isSymbol = false) (p : Value) :
    (substitute (only x r) p).isSymbol = true ↔ ∃ y, y ≠ x ∧ p = .symbol y := by
  cases p with
  | symbol y =>
      rw [substitute_symbol]
      unfold only
      split
      case isTrue h => simp [hr, h]
      case isFalse h => simp [h, Value.isSymbol]
  | _ => simp [substitute, Value.isSymbol]

theorem symbols_substitute (hr : r.isSymbol = false) (params : List Value) :
    Form.symbols (params.map (substitute (only x r))) =
      (Form.symbols params).filter (· ≠ x) := by
  have hname : ∀ p : Value,
      (substitute (only x r) p).name? = p.name?.filter (· ≠ x) := by
    intro p
    cases p with
    | symbol y =>
        rw [substitute_symbol, only, Value.name?, Option.filter_some]
        split
        case isTrue h =>
            rw [if_neg (by simpa using h)]
            exact Value.name?_of_not_isSymbol hr
        case isFalse h =>
            rw [if_pos (by simpa using h)]
            rfl
    | _ => rfl
  rw [Form.symbols, Form.symbols, List.filterMap_map, List.filter_filterMap]
  exact congrArg (List.filterMap · params) (funext hname)

/-- The parameters are other names. -/
def AreOther (x : String) (params : List Value) : Prop :=
  ∀ p ∈ params, ∃ y, y ≠ x ∧ p = .symbol y

theorem AreOther.map_substitute {params : List Value} (h : AreOther x params) :
    params.map (substitute (only x r)) = params := by
  refine (List.map_congr_left fun p hp => ?_).trans (List.map_id params)
  obtain ⟨y, hy, rfl⟩ := h p hp
  exact substitute_of_ne hy.symm

theorem areOther_iff (hr : r.isSymbol = false) (params : List Value) :
    (∀ p ∈ params.map (substitute (only x r)), p.isSymbol = true) ↔ AreOther x params := by
  rw [List.forall_mem_map]
  exact forall₂_congr fun p _ => isSymbol_substitute hr p

/-- After a call of a procedure of the parameter `x`, the parameters that both forms
had in common are taken alike. -/
inductive StayAlike (x f : String) (params : List Value) : Prop
  | names : AreOther x params → StayAlike x f params
  /-- Some symbol that the call does not replace is repeated. -/
  | repeated : ¬((Form.symbols params).filter (· ≠ x)).Nodup → StayAlike x f params
  /-- Neither list is replaced in, since both are quotations. -/
  | quotations : f = Keyword.quote.name → isQuotation params = true →
      ¬(Form.symbols params).Nodup ∨ (∀ p ∈ params, p.isSymbol = true) → StayAlike x f params

theorem takenAlike_self {params : List Value}
    (h : ¬(Form.symbols params).Nodup ∨ ∀ p ∈ params, p.isSymbol = true) :
    TakenAlike params params := by
  by_cases hnodup : (Form.symbols params).Nodup
  · exact .names hnodup (h.resolve_left (not_not.2 hnodup)) rfl
  · exact .refused hnodup hnodup

/-- If one of two lists that are taken alike was replaced in, what holds of both holds
of that one. -/
theorem stayAlike_of_replaced (hr : r.isSymbol = false) {params made made' : List Value}
    (h : TakenAlike made made')
    (hreplaced : made = params.map (substitute (only x r)) ∨
      made' = params.map (substitute (only x r))) : StayAlike x f params := by
  cases h with
  | refused h h' =>
      refine .repeated ?_
      rw [← symbols_substitute hr]
      rcases hreplaced with rfl | rfl
      · exact h
      · exact h'
  | names _ hall htree =>
      refine .names ((areOther_iff hr params).1 ?_)
      rcases hreplaced with rfl | rfl
      · exact hall
      · exact (Form.forall_isSymbol_congr htree).1 hall

theorem takenAlike_iff (hr : r.isSymbol = false) (params : List Value) :
    TakenAlike
        (if f = Keyword.quote.name then params else params.map (substitute (only x r)))
        (if isQuotation params then params else params.map (substitute (only x r))) ↔
      StayAlike x f params := by
  constructor
  · intro h
    by_cases hboth : f = Keyword.quote.name ∧ isQuotation params = true
    · rw [if_pos hboth.1, if_pos hboth.2] at h
      refine .quotations hboth.1 hboth.2 ?_
      cases h with
      | refused hrefused _ => exact .inl hrefused
      | names _ hall _ => exact .inr hall
    · refine stayAlike_of_replaced hr h ?_
      by_cases hf : f = Keyword.quote.name
      · exact .inr (if_neg fun hq => hboth ⟨hf, hq⟩)
      · exact .inl (if_neg hf)
  · intro h
    cases h with
    | names h =>
        rw [h.map_substitute, ite_self, ite_self]
        refine takenAlike_self (.inr fun p hp => ?_)
        obtain ⟨y, -, rfl⟩ := h p hp
        rfl
    | repeated h =>
        have hrefused : ¬(Form.symbols params).Nodup := fun hnodup => h (hnodup.filter _)
        rw [← symbols_substitute hr params] at h
        refine .refused ?_ ?_ <;> split <;> assumption
    | quotations hf hq h =>
        rw [if_pos hf, if_pos hq]
        exact takenAlike_self h

/-! ## Both forms in a body -/

/-- What a call of a procedure of one parameter comes to. -/
def call (limit left : Nat) (m : Memory Bindings) (id : Identity) (x : String) (v body : Value) :
    Except Error Value × Memory Bindings :=
  Eval.runFrom m
    (Scoping.textual.apply (Scoping.textual.eval limit left) (.lambda id [.symbol x] body) [v])

section

variable (limit left : Nat) (m : Memory Bindings) (id : Identity) (v : Value)

theorem call_eq (body : Value) : call limit left m id x v body =
    Eval.runFrom m (do
      Scoping.textual.eval limit left () (← Eval.supply (instantiate [.symbol x] [v] body))) :=
  have hlen : [Value.symbol x].length = [v].length := rfl
  runFrom_call _ m id hlen body

/-- Which tree is evaluated is known up to identities. -/
theorem exists_call_eq (body : Value) :
    ∃ next t, t.tree = (substitute (only x (literal v 0).1) body).tree ∧
      call limit left m id x v body =
        Eval.runFrom ⟨next, m.bound⟩ (Scoping.textual.eval limit left () t) := by
  have htree := (instantiate_tree [(x, v)] body m.supply).1
  rw [assigned_singleton] at htree
  rw [call_eq, Eval.runFrom_bind, Eval.runFrom_supply]
  exact ⟨_, _, htree, rfl⟩

theorem exists_call_shorthand_eq (hf : x ≠ f) (hdefine : x ≠ Keyword.define.name)
    (i j : Identity) (params : List Value) (b : Value) (body : List Value) :
    ∃ next i' j' made b' body',
      made.map Value.tree = (if f = Keyword.quote.name then params
        else params.map (substitute (only x (literal v 0).1))).map Value.tree ∧
      (b' :: body').map Value.tree =
        ((b :: body).map (substitute (only x (literal v 0).1))).map Value.tree ∧
      call limit left m id x v (shorthand i j f params (b :: body)) =
        Eval.runFrom ⟨next, m.bound⟩
          (Scoping.textual.eval limit left () (shorthand i' j' f made (b' :: body'))) := by
  obtain ⟨next, t, htree, hcall⟩ :=
    exists_call_eq (x := x) limit left m id v (shorthand i j f params (b :: body))
  rw [substitute_shorthand hf hdefine] at htree
  obtain ⟨i', j', made, items, rfl, hmade, hitems⟩ := exists_shorthand htree
  obtain ⟨b', body', rfl, -⟩ := List.map_eq_cons_iff.1 hitems
  exact ⟨next, i', j', made, b', body', hmade, hitems, hcall⟩

theorem exists_call_spelledOut_eq (hf : x ≠ f) (hdefine : x ≠ Keyword.define.name)
    (hlambda : x ≠ Keyword.lambda.name) (i j k : Identity) (params : List Value) (body : Value) :
    ∃ next i' j' k' made body',
      made.map Value.tree = (if isQuotation params then params
        else params.map (substitute (only x (literal v 0).1))).map Value.tree ∧
      body'.tree = (substitute (only x (literal v 0).1) body).tree ∧
      call limit left m id x v (spelledOut i j k f params body) =
        Eval.runFrom ⟨next, m.bound⟩
          (Scoping.textual.eval limit left () (spelledOut i' j' k' f made body')) := by
  obtain ⟨next, t, htree, hcall⟩ :=
    exists_call_eq (x := x) limit left m id v (spelledOut i j k f params body)
  rw [substitute_spelledOut hf hdefine hlambda] at htree
  obtain ⟨i', j', k', made, body', rfl, hmade, hbody⟩ := exists_spelledOut htree
  exact ⟨next, i', j', k', made, body', hmade, hbody, hcall⟩

end

theorem sameDefinition_call_iff (hf : x ≠ f) (hbegin : x ≠ Keyword.begin.name)
    (hdefine : x ≠ Keyword.define.name) (hlambda : x ≠ Keyword.lambda.name)
    (limit left : Nat) (m : Memory Bindings) (id : Identity) (v : Value)
    (i j i' j' k' l : Identity) (params : List Value) (b : Value) (body : List Value) :
    SameDefinition .textual m.bound () f
        (call limit (left + 2) m id x v (shorthand i j f params (b :: body)))
        (call limit (left + 2) m id x v
          (spelledOut i' j' k' f params (sequenced l (b :: body)))) ↔
      StayAlike x f params := by
  obtain ⟨next, i, j, made, b', body', hmade, hbody, hshort⟩ :=
    exists_call_shorthand_eq limit (left + 2) m id v hf hdefine i j params b body
  obtain ⟨next', i', j', k', made', c, hmade', hc, hlong⟩ :=
    exists_call_spelledOut_eq limit (left + 2) m id v hf hdefine hlambda i' j' k' params
      (sequenced l (b :: body))
  have hbodies : (sequenced l (b' :: body')).tree = c.tree := by
    rw [hc, substitute_sequenced hbegin]
    exact tree_sequenced_congr hbody l
  have hr : (literal v 0).1.isSymbol = false := (isLiteral_literal v 0).not_isSymbol
  have hbound : (⟨next', m.bound⟩ : Memory Bindings).bound =
      (⟨next, m.bound⟩ : Memory Bindings).bound := rfl
  rw [hshort, hlong, ← takenAlike_iff hr params]
  constructor
  · intro h
    exact (takenAlike_of_sameDefinition limit left i j i' j' k' f h hbound).congr hmade hmade'
  · intro h
    exact (h.congr hmade.symm hmade'.symm).sameDefinition limit left i j i' j' k' l f hbound
      hbodies

theorem exists_of_not_tooDeep {limit left : Nat} {m : Memory Bindings} {id : Identity} {v : Value}
    (hf : x ≠ f) (hdefine : x ≠ Keyword.define.name) (hlambda : x ≠ Keyword.lambda.name)
    {i j k : Identity} {params : List Value} {body : Value}
    (h : ∀ e, (call limit left m id x v (spelledOut i j k f params body)).1 = .error e →
      ¬e.IsTooDeep) : ∃ rest, left = rest + 2 := by
  refine Nat.exists_eq_add_of_le' (Nat.le_of_not_lt fun hleft => ?_)
  obtain ⟨next, i', j', k', made, body', -, -, hcall⟩ :=
    exists_call_spelledOut_eq limit left m id v hf hdefine hlambda i j k params body
  rw [hcall, Scoping.eval_spelledOut_tooDeep _ limit hleft] at h
  exact h _ rfl (.intro limit none)

end Textual

/-! ## The shorthand within a procedure -/

/-- In an environment the shorthand for a procedure, in the body of another one,
defines what the longer form defines, or fails as it does, whatever the parameters
are. By substitution it does so exactly where the enclosing call leaves the
parameters alike: if they are names other than the enclosing one, if another name is
repeated, or if both lists of them are quotations. Both are said of longer forms
that are not nested too deep; the shorthand is then not either. -/
theorem shorthand_sameDefinition {x f : String} (hf : x ≠ f) (hbegin : x ≠ Keyword.begin.name)
    (hdefine : x ≠ Keyword.define.name) (hlambda : x ≠ Keyword.lambda.name) (v : Value)
    (params : List Value) (b : Value) (body : List Value) (id i j i' j' k' l : Identity)
    (limit left : Nat) :
    let short := shorthand i j f params (b :: body)
    let long := spelledOut i' j' k' f params (sequenced l (b :: body))
    (∀ (m : Memory Heap) (env : Environment),
      (∀ e, (Lexical.call limit left m id env x v long).1 = .error e → ¬e.IsTooDeep) →
        let inside := m.bound.extend env (Lexical.frame [x] [v])
        SameDefinition .lexical inside.2 inside.1 f (Lexical.call limit left m id env x v short)
          (Lexical.call limit left m id env x v long)) ∧
    ∀ m : Memory Bindings,
      (∀ e, (Textual.call limit left m id x v long).1 = .error e → ¬e.IsTooDeep) →
        (SameDefinition .textual m.bound () f (Textual.call limit left m id x v short)
          (Textual.call limit left m id x v long) ↔ Textual.StayAlike x f params) := by
  constructor
  · intro m env hdeep
    obtain ⟨rest, rfl⟩ := Lexical.exists_of_not_tooDeep hdeep
    exact Lexical.sameDefinition_call limit rest m id env x v i j i' j' k' l f params b body
  · intro m hdeep
    obtain ⟨rest, rfl⟩ := Textual.exists_of_not_tooDeep hf hdefine hlambda hdeep
    exact Textual.sameDefinition_call_iff hf hbegin hdefine hlambda limit rest m id v
      i j i' j' k' l params b body

/-- `(define (pair a b) x (list a b))` and the longer form of it, called with 1 for
`x`. -/
theorem shorthand_sameDefinition_pair :
    let params : List Value := [.symbol "a", .symbol "b"]
    let last : Value := .list 10 [.symbol "list", .symbol "a", .symbol "b"]
    let short := shorthand 11 12 "pair" params [.symbol "x", last]
    let long := spelledOut 13 14 15 "pair" params (sequenced 16 [.symbol "x", last])
    let heap := (Heap.empty.push ∅).extend ⟨0, []⟩ (Lexical.frame ["x"] [.int 1])
    "x" ≠ "pair" ∧ "x" ≠ Keyword.begin.name ∧ "x" ≠ Keyword.define.name ∧
    "x" ≠ Keyword.lambda.name ∧ Textual.StayAlike "x" "pair" params ∧
    SameDefinition .lexical heap.2 heap.1 "pair"
      (Lexical.call 3 3 ⟨20, Heap.empty.push ∅⟩ 17 ⟨0, []⟩ "x" (.int 1) short)
      (Lexical.call 3 3 ⟨20, Heap.empty.push ∅⟩ 17 ⟨0, []⟩ "x" (.int 1) long) ∧
    SameDefinition .textual ∅ () "pair"
      (Textual.call 3 3 ⟨20, ∅⟩ 17 "x" (.int 1) short)
      (Textual.call 3 3 ⟨20, ∅⟩ 17 "x" (.int 1) long) := by
  intro params last short long heap
  have hpair : "x" ≠ "pair" := by decide
  have hbegin : "x" ≠ Keyword.begin.name := by decide
  have hdefine : "x" ≠ Keyword.define.name := by decide
  have hlambda : "x" ≠ Keyword.lambda.name := by decide
  have hstay : Textual.StayAlike "x" "pair" params := by
    refine .names fun p hp => ?_
    rcases List.mem_pair.1 hp with rfl | rfl
    · exact ⟨"a", by decide, rfl⟩
    · exact ⟨"b", by decide, rfl⟩
  have hlexical : ∀ e, (Lexical.call 3 3 ⟨20, Heap.empty.push ∅⟩ 17 ⟨0, []⟩ "x" (.int 1)
      long).1 = .error e → ¬e.IsTooDeep := by
    intro e he
    rw [Lexical.call, Lexical.runFrom_call _ _ _ rfl] at he
    cases he
  have htextual : ∀ e, (Textual.call 3 3 ⟨20, ∅⟩ 17 "x" (.int 1) long).1 = .error e →
      ¬e.IsTooDeep := by
    intro e he
    rw [Textual.call_eq] at he
    cases he
  have hsame := shorthand_sameDefinition hpair hbegin hdefine hlambda (.int 1) params (.symbol "x")
    [last] 17 11 12 13 14 15 16 3 3
  exact ⟨hpair, hbegin, hdefine, hlambda, hstay, hsame.1 ⟨20, Heap.empty.push ∅⟩ ⟨0, []⟩ hlexical,
    (hsame.2 ⟨20, ∅⟩ htextual).2 hstay⟩

/-- `(define (f x) x)` and `(define f (lambda (x) x))`, called with 1 for `x` under
substitution, are not nested too deep and do not do the same: the first is a type
error and the second defines `f`. -/
theorem not_sameDefinition_reused :
    let short := Textual.call 3 3 ⟨20, ∅⟩ 10 "x" (.int 1)
      (shorthand 11 12 "f" [.symbol "x"] [.symbol "x"])
    let long := Textual.call 3 3 ⟨20, ∅⟩ 10 "x" (.int 1)
      (spelledOut 13 14 15 "f" [.symbol "x"] (sequenced 16 [.symbol "x"]))
    short.1 = .error (.type (.parameterNotSymbol (.int 1)) none) ∧ long.1 = .ok .unspecified ∧
    ¬SameDefinition .textual ∅ () "f" short long := by
  intro short long
  have hshort : short.1 = .error (.type (.parameterNotSymbol (.int 1)) none) := by
    show (Textual.call _ _ _ _ _ _ _).1 = _
    rw [Textual.call_eq]
    rfl
  have hlong : long.1 = .ok .unspecified := by
    show (Textual.call _ _ _ _ _ _ _).1 = _
    rw [Textual.call_eq]
    rfl
  refine ⟨hshort, hlong, fun h => ?_⟩
  generalize short = r, long = r' at h hshort hlong
  cases h with
  | failed => cases hlong
  | defined => cases hshort

end TwinScheme

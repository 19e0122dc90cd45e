import TwinScheme.Proofs.Agreement.Memories

/-!
# Evaluating opposite expressions

The two evaluators are one evaluator with two ways of binding names, so most of
the comparison is already done: sequences, clauses and calls follow from what
the scoping disciplines do. What is left is one case for each form. Names,
definitions and procedures are steps of linked memories. `let` is the case
where the disciplines really differ: one run calls a closure two levels further
down, the other copies expressions and stays where it is.

That difference is why levels are compared by order. The lexical run never has
more levels left than the textual one, so whatever it does not fail for its
limit, the textual run has room for.
-/

namespace TwinScheme

open List (Forall₂)

variable {kept : Meanings}

/-- Evaluators that give corresponding results on opposite expressions. -/
structure Evaluates (kept : Meanings) (ev : Environment → Value → Eval Heap Value)
    (ev' : Unit → Value → Eval Bindings Value) : Prop where
  tracks : ∀ {w s env ρ e e'}, Opposite kept s env ρ w e e' →
    (Bridge.twins kept).Tracks w (ev env e) (ev' () e') (Bridge.twins kept).value
  /-- `quote` means nothing, so a clause that begins with it goes nowhere. -/
  quote : ∀ {w s env ρ}, InScope kept.names w.calls s env ρ →
    (Bridge.twins kept).Tracks w (ev env (.symbol Keyword.quote.name))
      (ev' () (.symbol Keyword.quote.name)) fun _ _ _ => False

section

variable {w : History} {s : Scope} {env : Environment} {ρ : Locals}
  {ev : Environment → Value → Eval Heap Value} {ev' : Unit → Value → Eval Bindings Value}

theorem Evaluates.agrees (hev : Evaluates kept ev ev') (w : History) :
    (Bridge.twins kept).Agrees w (Opposite kept s env ρ) (ev env) (ev' ()) :=
  fun _ _ _ _ h => hev.tracks h

/-! ## Calls and forms in general -/

theorem apply_tracks (hev : Evaluates kept ev ev') {f f' : Value} {args args' : List Value}
    (hf : Matches w.pairs f f') (hargs : Forall₂ (Matches w.pairs) args args') :
    (Bridge.twins kept).Tracks w (Scoping.lexical.apply ev f args)
      (Scoping.textual.apply ev' f' args') (Bridge.twins kept).value := by
  refine Bridge.twins_lawful.apply (fun v g g' as as' _ hp hg has => ?_) hf hargs
  have hp' := Bridge.twins_lawful.created hg hp
  rw [Scoping.apply_created _ _ _ hp, Scoping.apply_created _ _ _ hp']
  refine (enter_tracks hg hp has).bind fun u r r' _ hr => ?_
  obtain ⟨s, ρ, hopposite⟩ := hr
  exact Bridge.Tracks.rethrow (hev.tracks hopposite)
    (fun _ _ he => he.within_left _) fun _ he => he.within _

/-- A form that is taken apart on both sides. -/
theorem form_tracks {k : Keyword} {operands operands' : List Value} {f f' : Form}
    (h : Form.parse k operands = .ok f) (h' : Form.parse k operands' = .ok f')
    (hf : (Bridge.twins kept).Tracks w (Scoping.lexical.evalForm (ev env) env f)
      (Scoping.textual.evalForm (ev' ()) () f') (Bridge.twins kept).value) :
    (Bridge.twins kept).Tracks w (Scoping.lexical.evalList ev env (.symbol k.name :: operands))
      (Scoping.textual.evalList ev' () (.symbol k.name :: operands'))
      (Bridge.twins kept).value := by
  rw [Scoping.evalList_form _ _ _ (Form.keyword?_name k),
    Scoping.evalList_form _ _ _ (Form.keyword?_name k), h, h']
  exact hf

theorem form_refused {k : Keyword} {operands operands' : List Value} {e e' : Error}
    (h : Form.parse k operands = .error e) (h' : Form.parse k operands' = .error e')
    (he : e.Alike e') :
    (Bridge.twins kept).Tracks w (Scoping.lexical.evalList ev env (.symbol k.name :: operands))
      (Scoping.textual.evalList ev' () (.symbol k.name :: operands'))
      (Bridge.twins kept).value := by
  rw [Scoping.evalList_form _ _ _ (Form.keyword?_name k),
    Scoping.evalList_form _ _ _ (Form.keyword?_name k), h, h']
  exact .throw he

/-- Operands that a keyword refuses are refused opposite, in the same words. -/
theorem misfit_tracks (hs : InScope kept.names w.calls s env ρ) {k : Keyword}
    {operands operands' : List Value} (hfit : Misfit s k operands)
    (hoperands : Forall₂ (Code w.pairs kept ρ) operands operands') :
    (Bridge.twins kept).Tracks w (Scoping.lexical.evalList ev env (.symbol k.name :: operands))
      (Scoping.textual.evalList ev' () (.symbol k.name :: operands'))
      (Bridge.twins kept).value := by
  have hfit' : Misfit s k operands' := by
    refine hfit.transfer (fun houter x => ?_) hoperands
    cases houter
    exact hs.free List.not_mem_nil
  refine form_refused hfit.parse_eq hfit'.parse_eq ?_
  rw [hoperands.length_eq]
  exact .refl _

theorem Opposite.all (hs : InScope kept.names w.calls s env ρ) {es ss : List Value}
    (hyg : ∀ e ∈ es, Hygienic kept.toKept s e) (h : Forall₂ (Code w.pairs kept ρ) es ss) :
    Forall₂ (Opposite kept s env ρ w) es ss := by
  induction h with
  | nil => exact .nil
  | cons hes _ ih =>
      exact .cons ⟨hs, hyg _ List.mem_cons_self, hes⟩
        (ih fun e he => hyg e (List.mem_cons_of_mem _ he))

theorem combination_tracks (hev : Evaluates kept ev ev') (hs : InScope kept.names w.calls s env ρ)
    {items items' : List Value} (hkeyword : ∀ e ∈ items.head?, Form.keyword? e = none)
    (hyg : ∀ e ∈ items, Hygienic kept.toKept s e) (h : Forall₂ (Code w.pairs kept ρ) items items') :
    (Bridge.twins kept).Tracks w (Scoping.lexical.evalList ev env items)
      (Scoping.textual.evalList ev' () items') (Bridge.twins kept).value := by
  have hopposite := Opposite.all hs hyg h
  cases hopposite with
  | nil => exact .throw (.refl _)
  | @cons e e' rest rest' hhead hrest =>
      have hk : Form.keyword? e = none := hkeyword e rfl
      rw [Scoping.evalList_combination _ _ _ hk,
        Scoping.evalList_combination _ _ _ (hhead.code.keyword?_eq_none hk)]
      refine (hev.tracks hhead).bind fun v f f' hv hf => ?_
      have hrest' : Forall₂ (Opposite kept s env ρ v) rest rest' :=
        hrest.imp fun _ _ => Opposite.mono _ _ _ _ hv
      refine (Bridge.Tracks.mapM Opposite.mono (Bridge.twins kept).value_mono hrest'
        fun u a b _ hab => hev.tracks hab).bind fun u args args' hu hargs => ?_
      exact apply_tracks hev (hf.mono hu.pairs) hargs

/-! ## One form at a time -/

theorem quote_tracks {operands operands' : List Value}
    (h : Forall₂ (Matches w.pairs) operands operands') :
    (Bridge.twins kept).Tracks w
      (Scoping.lexical.evalList ev env (.symbol Keyword.quote.name :: operands))
      (Scoping.textual.evalList ev' () (.symbol Keyword.quote.name :: operands'))
      (Bridge.twins kept).value := by
  have hlen := h.length_eq
  match h with
  | .nil => exact form_refused rfl rfl (.refl _)
  | .cons hab .nil => exact form_tracks rfl rfl (.pure hab)
  | .cons _ (.cons _ _) =>
      refine form_refused rfl rfl ?_
      rw [hlen]
      exact .refl _

theorem define_form_tracks (hev : Evaluates kept ev ev')
    (hs : InScope kept.names w.calls .outermost env ρ) {name : String} {e e' : Value}
    (hname : Binder kept.names name) (he : Hygienic kept.toKept .outermost e)
    (hcode : Code w.pairs kept ρ e e') :
    (Bridge.twins kept).Tracks w (Scoping.lexical.evalForm (ev env) env (.define name e))
      (Scoping.textual.evalForm (ev' ()) () (.define name e')) (Bridge.twins kept).value := by
  cases hs.eq_top
  exact (hev.tracks ⟨hs, he, hcode⟩).bind fun _ _ _ _ hab => define_tracks hname hab

/-- A body of one expression stands for itself, any other is a sequence. -/
theorem single_tracks (hs : InScope kept.names w.calls s env ρ) {inner : Scope}
    {body body' : List Value} (hyg : ∀ e ∈ body, Hygienic kept.toKept inner e)
    (h : Forall₂ (Code w.pairs kept ρ) body body') :
    (Bridge.twins kept).Tracks w (Eval.supply (Form.single body))
      (Eval.supply (Form.single body'))
      fun v e e' => Hygienic kept.toKept inner e ∧ Code v.pairs kept ρ e e' := by
  have hbegin : ∀ items items', Forall₂ (Code w.pairs kept ρ) items items' →
      (∀ e ∈ items, Hygienic kept.toKept inner e) →
      (Bridge.twins kept).Tracks w (Eval.supply (Form.beginning items))
        (Eval.supply (Form.beginning items'))
        fun v e e' => Hygienic kept.toKept inner e ∧ Code v.pairs kept ρ e e' := by
    intro items items' hitems hhyg m n hm
    rw [Eval.runFrom_supply, Eval.runFrom_supply]
    exact .ok (.refl w) (hm.supply (Nat.le_succ _) (Nat.le_succ _))
      ⟨.sequence hhyg, .list rfl (.cons (.free (hs.free_keyword .begin)) hitems)⟩
  match h with
  | .nil => exact hbegin _ _ .nil hyg
  | .cons hab .nil => exact .pure ⟨hyg _ List.mem_cons_self, hab⟩
  | .cons ha (.cons hb hrest) => exact hbegin _ _ (.cons ha (.cons hb hrest)) hyg

theorem procedure_of_tracks (hs : InScope kept.names w.calls s env ρ) {params : List String}
    {body body' : List Value} (hparams : s.Admits kept.names params)
    (hyg : ∀ e ∈ body, Hygienic kept.toKept (s.enter params) e)
    (h : Forall₂ (Code w.pairs kept ρ) body body') :
    (Bridge.twins kept).Tracks w
      (do Scoping.lexical.procedure env (params.map .symbol) (← Eval.supply (Form.single body)))
      (do Scoping.textual.procedure () (params.map .symbol) (← Eval.supply (Form.single body')))
      (Bridge.twins kept).value :=
  (single_tracks hs hyg h).bind fun _ _ _ hv he =>
    procedure_tracks (hs.mono hv.calls) hparams he.1 he.2

theorem defineProcedure_tracks (hs : InScope kept.names w.calls .outermost env ρ) {name : String}
    {params : List String} {body body' : List Value} (hname : Binder kept.names name)
    (hparams : Scope.outermost.Admits kept.names params)
    (hyg : ∀ e ∈ body, Hygienic kept.toKept (Scope.outermost.enter params) e)
    (h : Forall₂ (Code w.pairs kept ρ) body body') :
    (Bridge.twins kept).Tracks w
      (Scoping.lexical.evalForm (ev env) env (.defineProcedure name params body))
      (Scoping.textual.evalForm (ev' ()) () (.defineProcedure name params body'))
      (Bridge.twins kept).value := by
  cases hs.eq_top
  have hprocedure := (procedure_of_tracks hs hparams hyg h).bind fun _ _ _ _ hfg =>
    define_tracks hname hfg
  rwa [bind_assoc, bind_assoc] at hprocedure

theorem assign_form_tracks (hev : Evaluates kept ev ev') (hs : InScope kept.names w.calls s env ρ)
    {name : String} {e e' : Value} (hname : Binder kept.names name) (hfree : name ∉ s.binders)
    (he : Hygienic kept.toKept s e) (hcode : Code w.pairs kept ρ e e') :
    (Bridge.twins kept).Tracks w (Scoping.lexical.evalForm (ev env) env (.assign name e))
      (Scoping.textual.evalForm (ev' ()) () (.assign name e')) (Bridge.twins kept).value := by
  refine (hev.tracks ⟨hs, he, hcode⟩).bind fun v a b hv hab => ?_
  refine (assign_tracks (hs.mono hv.calls) (hs.free hfree) hname hab).bind
    fun u _ _ _ _ => .pure .unspecified

theorem ite_tracks (hev : Evaluates kept ev ev') (hs : InScope kept.names w.calls s env ρ)
    {operands operands' : List Value} (hyg : ∀ e ∈ operands, Hygienic kept.toKept s e)
    (h : Forall₂ (Code w.pairs kept ρ) operands operands') :
    (Bridge.twins kept).Tracks w
      (Scoping.lexical.evalList ev env (.symbol Keyword.ite.name :: operands))
      (Scoping.textual.evalList ev' () (.symbol Keyword.ite.name :: operands'))
      (Bridge.twins kept).value := by
  have hlen := h.length_eq
  have hopposite := Opposite.all hs hyg h
  have hbranch : ∀ {test test' yes yes' : Value} {no : Eval Heap Value}
      {no' : Eval Bindings Value},
      Opposite kept s env ρ w test test' → Opposite kept s env ρ w yes yes' →
      (∀ v, w.Le v → (Bridge.twins kept).Tracks v no no' (Bridge.twins kept).value) →
      (Bridge.twins kept).Tracks w
        (do if (← ev env test).isTruthy then ev env yes else no)
        (do if (← ev' () test').isTruthy then ev' () yes' else no')
        (Bridge.twins kept).value := by
    intro test test' yes yes' no no' htest hyes hno
    refine (hev.tracks htest).bind fun v a b hv hab => ?_
    rw [← Matches.isTruthy_eq hab]
    split
    · exact hev.tracks (Opposite.mono _ _ _ _ hv hyes)
    · exact hno v hv
  match hopposite with
  | .nil => exact form_refused rfl rfl (.refl _)
  | .cons _ .nil => exact form_refused rfl rfl (.refl _)
  | .cons htest (.cons hyes .nil) =>
      exact form_tracks rfl rfl (hbranch htest hyes fun v _ => .pure .unspecified)
  | .cons htest (.cons hyes (.cons hno .nil)) =>
      exact form_tracks rfl rfl
        (hbranch htest hyes fun v hv => hev.tracks (Opposite.mono _ _ _ _ hv hno))
  | .cons _ (.cons _ (.cons _ (.cons _ _))) =>
      refine form_refused rfl rfl ?_
      rw [hlen]
      exact .refl _

/-- Clauses that belong opposite each other. -/
structure OppositeClauses (kept : Meanings) (s : Scope) (env : Environment) (ρ : Locals)
    (w : History) (c c' : Value) : Prop where
  scope : InScope kept.names w.calls s env ρ
  hygienic : ∀ j items, c = .list j items → ∀ e ∈ items, Hygienic kept.toKept s e
  bare : ∀ name, c = .symbol name → name ∉ s.binders
  code : Code w.pairs kept ρ c c'

theorem OppositeClauses.mono :
    (Bridge.twins kept).Persists (OppositeClauses kept s env ρ) :=
  fun _ _ _ _ hle h =>
    ⟨h.scope.mono hle.calls, h.hygienic, h.bare, h.code.mono hle.pairs⟩

theorem OppositeClauses.match (hev : Evaluates kept ev ev') {c c' : Value}
    (h : OppositeClauses kept s env ρ w c c') :
    (Bridge.twins kept).ClausesMatch (Opposite kept s env ρ) (ev env) (ev' ()) w c c' := by
  obtain ⟨hs, hyg, hbare, hcode⟩ := h
  cases hcode with
  | value hself hcc =>
      have hself' : c'.isSelfEvaluating = true := hcc.isSelfEvaluating_eq ▸ hself
      exact .refused (Form.clause_eq_error (Value.isList_of_isSelfEvaluating hself))
        (Form.clause_eq_error (Value.isList_of_isSelfEvaluating hself')) (.type _ _ _ _)
  | free _ => exact .refused rfl rfl (.refl _)
  | bound hx _ _ =>
      rw [hs.free (hbare _ rfl)] at hx
      cases hx
  | quotation hrest => exact .stuck rfl rfl rfl rfl (hev.quote hs)
  | list hq hitems =>
      have hopposite := Opposite.all hs (hyg _ _ rfl) hitems
      cases hopposite with
      | nil => exact .refused rfl rfl (.refl _)
      | @cons t t' b b' ht hb =>
          have helse : ρ "else" = none := hs.free fun hx => (hs.binder _ hx).not_else rfl
          have heq := ht.code.isElse_eq helse
          cases hcase : Form.isElse t with
          | true => exact .otherwise rfl rfl hcase (heq ▸ hcase) hb
          | false => exact .tested rfl rfl hcase (heq ▸ hcase) ht hb

theorem cond_tracks (hev : Evaluates kept ev ev') (hs : InScope kept.names w.calls s env ρ)
    {clauses clauses' : List Value}
    (hyg : ∀ j items, .list j items ∈ clauses → ∀ e ∈ items, Hygienic kept.toKept s e)
    (hbare : ∀ name, .symbol name ∈ clauses → name ∉ s.binders)
    (h : Forall₂ (Code w.pairs kept ρ) clauses clauses') :
    (Bridge.twins kept).Tracks w (Scoping.lexical.evalForm (ev env) env (.cond clauses))
      (Scoping.textual.evalForm (ev' ()) () (.cond clauses')) (Bridge.twins kept).value := by
  have hmember : Forall₂ (fun c c' => c ∈ clauses ∧ Code w.pairs kept ρ c c')
      clauses clauses' :=
    (List.forall₂_and_left _ _).2 ⟨fun c hc => hc, h⟩
  have hclauses : Forall₂ (OppositeClauses kept s env ρ w) clauses clauses' := by
    refine hmember.imp fun c c' hcc => ⟨hs, ?_, ?_, hcc.2⟩
    · rintro j items rfl
      exact hyg j items hcc.1
    · rintro name rfl
      exact hbare name hcc.1
  exact Bridge.twins_lawful.evalClauses Opposite.mono OppositeClauses.mono hclauses
    (fun v c c' _ hcc => hcc.match hev) (hev.agrees w)

theorem sequence_tracks (hev : Evaluates kept ev ev') (hs : InScope kept.names w.calls s env ρ)
    {body body' : List Value} (hyg : ∀ e ∈ body, Hygienic kept.toKept s e)
    (h : Forall₂ (Code w.pairs kept ρ) body body') :
    (Bridge.twins kept).Tracks w (Scoping.evalSequence (ev env) body)
      (Scoping.evalSequence (ev' ()) body') (Bridge.twins kept).value :=
  Bridge.twins_lawful.evalSequence Opposite.mono (Opposite.all hs hyg h) (hev.agrees w)

end

/-! ## Names and settled expressions -/

section

variable {w : History} {s : Scope} {env : Environment} {ρ : Locals} {limit limit' : Nat}

/-- The lexical run has no level left to look a name up. -/
theorem symbol_zero_tracks {β : Type} {y : Eval Bindings β} {R : History → Value → β → Prop}
    (x : String) :
    (Bridge.twins kept).Tracks w (Scoping.lexical.eval limit 0 env (.symbol x)) y R := by
  rw [Scoping.eval_symbol_zero]
  exact .excused (.intro limit none)

theorem list_zero_tracks {β : Type} {y : Eval Bindings β} {R : History → Value → β → Prop}
    (id : Identity) (items : List Value) :
    (Bridge.twins kept).Tracks w (Scoping.lexical.eval limit 0 env (.list id items)) y R := by
  rw [Scoping.eval_list_zero]
  exact .excused (.intro limit none)

/-- A parameter has its value, and looking it up changes nothing. -/
theorem resolve_bound (hs : InScope kept.names w.calls s env ρ) {x : String} {v : Value}
    (hx : ρ x = some v) :
    (Bridge.twins kept).Tracks w (Scoping.lexical.resolve env x) (pure ())
      fun _ a _ => a = v := by
  intro m n hm
  obtain ⟨b₀, b₁, hholds⟩ := hm.frames
  rw [Scoping.runFrom_resolve, hs.find?_bound hholds hx]
  exact .ok (.refl w) hm rfl

/-- An expression that denotes a value evaluates to it. -/
theorem denotes_tracks {a e : Value} (h : Denotes kept a e) (left : Nat) :
    (Bridge.twins kept).Tracks w (pure ()) (Scoping.textual.eval limit (left + 1) () e)
      fun _ _ b => b = a := by
  cases h with
  | self hself =>
      rw [Scoping.eval_of_isSelfEvaluating _ _ _ _ hself]
      exact .pure rfl
  | quotation id =>
      rw [Keyword.form, Scoping.eval_list_succ,
        Scoping.evalList_form _ _ _ (Form.keyword?_name .quote)]
      exact .pure rfl
  | @name g _ hmeaning =>
      intro m n hm
      have hfind : Scoping.textual.find? n.bound () g = some a := hm.settled g a hmeaning
      rw [Scoping.eval_symbol_succ, Scoping.runFrom_resolve, hfind]
      exact .ok (.refl w) hm rfl

/-- Names mean corresponding things, unless the lexical run has no level left to
look one up. -/
theorem symbol_tracks (hs : InScope kept.names w.calls s env ρ) {x : String} {e' : Value}
    {left left' : Nat} (hle : left ≤ left') (hcode : Code w.pairs kept ρ (.symbol x) e') :
    (Bridge.twins kept).Tracks w (Scoping.lexical.eval limit left env (.symbol x))
      (Scoping.textual.eval limit' left' () e') (Bridge.twins kept).value := by
  cases left with
  | zero => exact symbol_zero_tracks x
  | succ left =>
      obtain ⟨left', rfl⟩ : ∃ k, left' = k + 1 := ⟨left' - 1, by omega⟩
      rw [Scoping.eval_symbol_succ]
      cases hcode with
      | value hself _ => cases hself
      | free hx =>
          rw [Scoping.eval_symbol_succ]
          exact resolve_tracks hs hx
      | @bound _ v a _ hx hva he' =>
          have hboth : (Bridge.twins kept).Tracks w
              (Scoping.lexical.resolve env x >>= fun b => pure b)
              (Scoping.textual.eval limit' (left' + 1) () e' >>= fun b => pure b)
              (Bridge.twins kept).value := by
            refine (resolve_bound hs hx).bind_left fun u b hu hb => ?_
            refine (denotes_tracks he' left').bind_right fun t c ht hc => ?_
            cases hb
            cases hc
            exact .pure ((hva.mono hu.pairs).mono ht.pairs)
          rwa [bind_pure, bind_pure] at hboth

/-- A name that a value was put in place of has that value. -/
theorem resolve_denoted (hs : InScope kept.names w.calls s env ρ) {x : String} {v e' : Value}
    (hx : ρ x = some v) (hcode : Code w.pairs kept ρ (.symbol x) e') :
    (Bridge.twins kept).Tracks w (Scoping.lexical.resolve env x) (pure ())
      fun u a _ => ∃ b, Matches u.pairs a b ∧ Denotes kept b e' := by
  refine (resolve_bound hs hx).consequence fun u a _ hu ha => ?_
  cases ha
  cases hcode with
  | value hself _ => cases hself
  | free hfree =>
      rw [hx] at hfree
      cases hfree
  | bound hx' hvb hb =>
      rw [hx] at hx'
      cases hx'
      exact ⟨_, hvb.mono hu.pairs, hb⟩

/-- A settled name that nothing was put in place of has the value it was settled to. -/
theorem resolve_settled (hs : InScope kept.names w.calls s env ρ) {x : String}
    (hx : x ∈ kept.settled) (hnone : ρ x = none) :
    (Bridge.twins kept).Tracks w (Scoping.lexical.resolve env x) (pure ())
      fun u a _ => ∃ b, Matches u.pairs a b ∧ Denotes kept b (.symbol x) := by
  obtain ⟨b, hb⟩ := Option.isSome_iff_exists.1 ((kept.isSome_iff x).2 hx)
  intro m n hm
  obtain ⟨b₀, b₁, hholds⟩ := hm.frames
  have hrel := hm.globals x
  rw [hm.settled x b hb] at hrel
  rw [Scoping.runFrom_resolve, hs.find?_free hholds hnone]
  generalize m.bound.find? .top x = o at hrel
  cases hrel with
  | some hab => exact .ok (.refl w) hm ⟨b, hab, .name hb⟩

/-- A settled expression has a value that the expression opposite denotes, and
evaluating it changes nothing. -/
theorem settled_tracks (hs : InScope kept.names w.calls s env ρ) {e e' : Value}
    (h : Settled kept.toKept s e) (hcode : Code w.pairs kept ρ e e') (left : Nat) :
    (Bridge.twins kept).Tracks w (Scoping.lexical.eval limit left env e) (pure ())
      fun v a _ => ∃ b, Matches v.pairs a b ∧ Denotes kept b e' := by
  cases h with
  | value hself =>
      rw [Scoping.eval_of_isSelfEvaluating _ _ _ _ hself]
      cases hcode with
      | value _ hee => exact .pure ⟨_, hee, .self (hee.isSelfEvaluating_eq ▸ hself)⟩
      | _ => cases hself
  | quotation id datum =>
      obtain ⟨j, operands', rfl, hoperands⟩ := hcode.exists_quote
      match hoperands with
      | .cons hdatum .nil =>
          cases left with
          | zero => exact list_zero_tracks id _
          | succ left =>
              rw [Keyword.form, Scoping.eval_list_succ,
                Scoping.evalList_form _ _ _ (Form.keyword?_name .quote)]
              exact .pure ⟨_, hdatum, .quotation j⟩
  | @bound x hx =>
      cases left with
      | zero => exact symbol_zero_tracks x
      | succ left =>
          rw [Scoping.eval_symbol_succ]
          obtain ⟨v, hv⟩ := Option.isSome_iff_exists.1 ((hs.domain x).2 hx)
          exact resolve_denoted hs hv hcode
  | @name x hx =>
      cases left with
      | zero => exact symbol_zero_tracks x
      | succ left =>
          rw [Scoping.eval_symbol_succ]
          cases hv : ρ x with
          | some v => exact resolve_denoted hs hv hcode
          | none =>
              cases hcode.eq_symbol hv
              exact resolve_settled hs hx hv

theorem settled_mapM_tracks (hs : InScope kept.names w.calls s env ρ) {es es' : List Value}
    (h : ∀ e ∈ es, Settled kept.toKept s e) (hcode : Forall₂ (Code w.pairs kept ρ) es es')
    (left : Nat) :
    (Bridge.twins kept).Tracks w (es.mapM (Scoping.lexical.eval limit left env)) (pure ())
      fun v as _ => Forall₂ (fun a e' => ∃ b, Matches v.pairs a b ∧ Denotes kept b e') as es' := by
  induction es generalizing w es' with
  | nil =>
      cases hcode
      exact .pure .nil
  | cons e es ih =>
      obtain ⟨e', es', hee, hrest, rfl⟩ := List.forall₂_cons_left_iff.1 hcode
      rw [List.mapM_cons]
      refine (settled_tracks hs (h e List.mem_cons_self) hee left).bind_left fun v a hv ha => ?_
      have hrest' : Forall₂ (Code v.pairs kept ρ) es es' :=
        hrest.imp fun _ _ hcode => hcode.mono hv.pairs
      refine (ih (hs.mono hv.calls) (fun e he => h e (List.mem_cons_of_mem _ he))
        hrest').bind_left fun u as hu has => ?_
      obtain ⟨b, hab, hb⟩ := ha
      exact .pure (.cons ⟨b, hab.mono hu.pairs, hb⟩ has)

/-! ## The body of a let -/

/-- The call that `let` is for the lexical run. -/
theorem callOfLet_ensures (pairs : List LetPair) (body : List Value) :
    (Lexical.callOfLet (pairs.map fun p => (p.name, p.expr)) body).Ensures fun call =>
      ∃ i j k l, call = .list i (Keyword.lambda.form j
        [.list k ((pairs.map (·.name)).map .symbol), Keyword.begin.form l body] ::
          pairs.map (·.expr)) := by
  have hnames : (pairs.map fun p => (p.name, p.expr)).map (fun pair => Value.symbol pair.1) =
      (pairs.map (·.name)).map .symbol := by
    rw [List.map_map, List.map_map]
    rfl
  have hexprs : (pairs.map fun p => (p.name, p.expr)).map (·.2) = pairs.map (·.expr) := by
    rw [List.map_map]
    rfl
  intro next
  refine ⟨⟨next + 3, next + 2, next, next + 1, ?_⟩, ?_⟩
  · rw [← hnames, ← hexprs]
    rfl
  · show next ≤ next + 1 + 1 + 1 + 1
    exact Nat.le_add_right next 4

/-- Calling the closure of a `let` binds the values of its expressions. -/
theorem enter_let_tracks (hs : InScope kept.names w.calls s env ρ) {params : List String}
    {args : List Value} (hparams : s.Admits kept.names params) (hlen : params.length = args.length)
    (id : Identity) (body : Value) :
    (Bridge.twins kept).Tracks w (Scoping.lexical.enter (.closure id params body env) args)
      (pure ()) fun v r _ => r.2 = body ∧
        InScope kept.names v.calls (s.enter params) r.1 (ρ.bind (params.zip args)) := by
  intro m n hm
  obtain ⟨b₀, b₁, hholds⟩ := hm.frames
  have hrun : Eval.runFrom m (Scoping.lexical.enter (.closure id params body env) args) =
      (.ok (⟨w.calls.length + 2, env.frames⟩, body),
        ⟨m.supply, m.bound.push (Lexical.frame params args)⟩) := by
    have hlexical : Scoping.lexical.enter = Lexical.enter := rfl
    rw [hlexical, Lexical.enter, if_neg (not_not.2 hlen), ← hholds.size]
    rfl
  rw [hrun]
  exact .ok (w.le_extend (Lexical.frame params args)) (hm.extend _)
    ⟨rfl, hs.extend hparams hlen⟩

/-- What the lexical run of a `let` comes to when its closure is called. -/
theorem apply_let_tracks (hs : InScope kept.names w.calls s env ρ) {params : List String}
    {args : List Value} (hparams : s.Admits kept.names params) (hlen : params.length = args.length)
    (id l : Identity) {left : Nat} {body : List Value} {y : Eval Bindings Value}
    (hbody : ∀ v env', w.Le v →
      InScope kept.names v.calls (s.enter params) env' (ρ.bind (params.zip args)) →
      (Bridge.twins kept).Tracks v
        (Scoping.evalSequence (Scoping.lexical.eval limit left env') body)
        y (Bridge.twins kept).value) :
    (Bridge.twins kept).Tracks w
      (Scoping.lexical.apply (Scoping.lexical.eval limit (left + 1))
        (.closure id params (Keyword.begin.form l body) env) args) y
      (Bridge.twins kept).value := by
  rw [Scoping.apply_created _ _ _ (by simp)]
  refine (enter_let_tracks hs hparams hlen id _).bind_left fun v r hv hr => ?_
  obtain ⟨env', expr⟩ := r
  obtain ⟨rfl, hscope⟩ := hr
  refine Bridge.Tracks.rethrow_left ?_ (fun _ _ he => he.within_left _) fun _ he => he.within _
  show (Bridge.twins kept).Tracks v
    (Scoping.lexical.eval limit (left + 1) env' (Keyword.begin.form l body)) y _
  rw [Keyword.form, Scoping.eval_list_succ,
    Scoping.evalList_form _ _ _ (Form.keyword?_name .begin)]
  exact hbody v env' hv hscope

/-- Making a closure cannot fail. -/
theorem procedure_tracks_left (params : List String) (body : Value) :
    (Bridge.twins kept).Tracks w (Scoping.lexical.procedure env (params.map .symbol) body)
      (pure ()) fun _ f _ => ∃ id, f = .closure id params body env := by
  intro m n hm
  rw [runFrom_procedure]
  exact .ok (.refl w) (hm.supply (Nat.le_succ _) (Nat.le_refl _)) ⟨_, rfl⟩

theorem lambda_tracks_left {params : List String} (hnodup : params.Nodup) (j k : Identity)
    (body : Value) (left : Nat) :
    (Bridge.twins kept).Tracks w (Scoping.lexical.eval limit (left + 1) env
      (Keyword.lambda.form j [.list k (params.map .symbol), body])) (pure ())
      fun _ f _ => ∃ id, f = .closure id params body env := by
  rw [Keyword.form, Scoping.eval_list_succ,
    Scoping.evalList_form _ _ _ (Form.keyword?_name .lambda), Form.parse_lambda hnodup]
  exact procedure_tracks_left params body

/-- The body of a `let`, its names bound on the one side and replaced on the other. The
values that the copied expressions denote are known by then. -/
theorem let_body_tracks {params : List String} {left left' : Nat}
    (hev : Evaluates kept (Scoping.lexical.eval limit left) (Scoping.textual.eval limit' left'))
    {args exprs body body' : List Value}
    (hs : InScope kept.names w.calls (s.enter params) env (ρ.bind (params.zip args)))
    (hnodup : params.Nodup) (hnew : ∀ x ∈ params, ρ x = none ∧ x ∉ kept.names)
    (hlen : params.length = args.length)
    (hargs : Forall₂ (fun a r => ∃ b, Matches w.pairs a b ∧ Denotes kept b r) args exprs)
    (hyg : ∀ e ∈ body, Hygienic kept.toKept (s.enter params) e)
    (hbody : Forall₂ (Code w.pairs kept ρ) body body') :
    (Bridge.twins kept).Tracks w
      (Scoping.evalSequence (Scoping.lexical.eval limit left env) body)
      (Scoping.textual.evalForm (Scoping.textual.eval limit' left' ()) ()
        (.bind ((params.map Value.symbol).zip exprs) body'))
      (Bridge.twins kept).value := by
  have hreplaced := Fresh.Ensures.mapM hbody fun e e' (hcode : Code w.pairs kept ρ e e') =>
    Textual.replaceEach_ensures hnodup hnew hlen hargs hcode
  refine (supply_right hreplaced ()).bind_right fun v body'' hv hbody'' => ?_
  exact sequence_tracks hev (hs.mono hv.calls) hyg
    (hbody''.imp fun _ _ hcode => hcode.mono hv.pairs)

/-- `let` as a call on the one side and as a substitution on the other. -/
theorem let_tracks {left left' : Nat} (hle : left ≤ left')
    (hev : ∀ k < left, Evaluates kept (Scoping.lexical.eval limit k)
      (Scoping.textual.eval limit' left'))
    (hs : InScope kept.names w.calls s env ρ) {pairs : List LetPair} {exprs body body' : List Value}
    (hparams : s.Admits kept.names (pairs.map (·.name)))
    (hsettled : ∀ p ∈ pairs, Settled kept.toKept s p.expr)
    (hexprs : Forall₂ (Code w.pairs kept ρ) (pairs.map (·.expr)) exprs)
    (hyg : ∀ e ∈ body, Hygienic kept.toKept (s.enter (pairs.map (·.name))) e)
    (hbody : Forall₂ (Code w.pairs kept ρ) body body') :
    (Bridge.twins kept).Tracks w
      (Scoping.lexical.evalForm (Scoping.lexical.eval limit left env) env
        (.bind (pairs.map fun p => (.symbol p.name, p.expr)) body))
      (Scoping.textual.evalForm (Scoping.textual.eval limit' left' ()) ()
        (.bind (((pairs.map (·.name)).map Value.symbol).zip exprs) body'))
      (Bridge.twins kept).value := by
  have hexpand : Scoping.lexical.expand (pairs.map fun p => (.symbol p.name, p.expr)) body =
      (do return [← Eval.supply
        (Lexical.callOfLet (pairs.map fun p => (p.name, p.expr)) body)]) := by
    show (do
      let pairs ← Eval.ofExcept (List.mapM Lexical.binderName _)
      return [← Eval.supply (Lexical.callOfLet pairs body)]) = _
    rw [Lexical.mapM_binderName]
    rfl
  rw [Scoping.evalForm, hexpand, bind_assoc]
  refine (supply_left (callOfLet_ensures _ body) ()).bind_left fun w₁ call hw₁ hcall => ?_
  obtain ⟨i, j, k, l, rfl⟩ := hcall
  rw [pure_bind, Scoping.evalSequence]
  -- The call is two levels above the body: none of them may be left.
  rcases left with _ | _ | left
  · exact list_zero_tracks i _
  · rw [Scoping.eval_list_succ, Scoping.evalList_combination _ _ _ rfl]
    exact Bridge.Tracks.bind_left (P := fun _ _ _ => False) (list_zero_tracks j _)
      fun _ _ _ h => h.elim
  · rw [Scoping.eval_list_succ, Scoping.evalList_combination _ _ _ rfl]
    refine (lambda_tracks_left hparams.nodup j k _ left).bind_left fun w₂ f hw₂ hf => ?_
    obtain ⟨id, rfl⟩ := hf
    have hw : w.Le w₂ := hw₁.trans hw₂
    have hexprs' : Forall₂ (Code w₂.pairs kept ρ) (pairs.map (·.expr)) exprs :=
      hexprs.imp fun _ _ hcode => hcode.mono hw.pairs
    have hsettled' : ∀ e ∈ pairs.map (·.expr), Settled kept.toKept s e :=
      List.forall_mem_map.2 hsettled
    refine (settled_mapM_tracks (hs.mono hw.calls) hsettled' hexprs' (left + 1)).bind_left
      fun w₃ args hw₃ hargs => ?_
    have hlen : (pairs.map (·.name)).length = args.length := by
      rw [hargs.length_eq, ← hexprs.length_eq, List.length_map, List.length_map]
    have hle₃ : w.Le w₃ := hw.trans hw₃
    refine apply_let_tracks (hs.mono hle₃.calls) hparams hlen id l fun w₄ env' hw₄ hs' => ?_
    have hle₄ : w.Le w₄ := hle₃.trans hw₄
    have hargs' : Forall₂ (fun a r => ∃ b, Matches w₄.pairs a b ∧ Denotes kept b r)
        args exprs :=
      hargs.imp fun _ _ hr => hr.imp fun _ hb => ⟨hb.1.mono hw₄.pairs, hb.2⟩
    have hnew : ∀ x ∈ pairs.map (·.name), ρ x = none ∧ x ∉ kept.names :=
      fun x hx => ⟨hs.free (hparams.new x hx), (hparams.binder x hx).not_kept⟩
    exact let_body_tracks (hev left (by omega)) hs' hparams.nodup hnew hlen hargs' hyg
      (hbody.imp fun _ _ hcode => hcode.mono hle₄.pairs)

/-! ## All expressions -/

theorem eval_list_tracks {i j : Identity} {items items' : List Value} {left left' : Nat}
    (hle : left ≤ left')
    (h : ∀ k k', k ≤ k' → k < left → (Bridge.twins kept).Tracks w
      (Scoping.lexical.evalList (Scoping.lexical.eval limit k) env items)
      (Scoping.textual.evalList (Scoping.textual.eval limit' k') () items')
      (Bridge.twins kept).value) :
    (Bridge.twins kept).Tracks w (Scoping.lexical.eval limit left env (.list i items))
      (Scoping.textual.eval limit' left' () (.list j items')) (Bridge.twins kept).value := by
  cases left with
  | zero => exact list_zero_tracks i items
  | succ left =>
      obtain ⟨left', rfl⟩ : ∃ k, left' = k + 1 := ⟨left' - 1, by omega⟩
      rw [Scoping.eval_list_succ, Scoping.eval_list_succ]
      exact h left left' (by omega) (by omega)

/-- Opposite forms are evaluated with evaluators that correspond one level down,
and the lexical one at any level below. -/
theorem keyword_tracks {k : Keyword} {i j : Identity} {operands operands' : List Value}
    {left left' : Nat} (hle : left ≤ left')
    (hlower : ∀ l < left, ∀ {l'}, l ≤ l' →
      Evaluates kept (Scoping.lexical.eval limit l) (Scoping.textual.eval limit' l'))
    (h : ∀ l l', l ≤ l' →
      Evaluates kept (Scoping.lexical.eval limit l) (Scoping.textual.eval limit' l') →
      (∀ d < l, Evaluates kept (Scoping.lexical.eval limit d) (Scoping.textual.eval limit' l')) →
      (Bridge.twins kept).Tracks w
        (Scoping.lexical.evalList (Scoping.lexical.eval limit l) env (.symbol k.name :: operands))
        (Scoping.textual.evalList (Scoping.textual.eval limit' l') () (.symbol k.name :: operands'))
        (Bridge.twins kept).value) :
    (Bridge.twins kept).Tracks w (Scoping.lexical.eval limit left env (k.form i operands))
      (Scoping.textual.eval limit' left' () (k.form j operands')) (Bridge.twins kept).value :=
  eval_list_tracks hle fun l l' hl hlt =>
    h l l' hl (hlower l hlt hl) fun _ hd => hlower _ (Nat.lt_trans hd hlt) (by omega)

theorem quote_symbol_tracks (hs : InScope kept.names w.calls s env ρ) {left left' : Nat}
    (hle : left ≤ left') :
    (Bridge.twins kept).Tracks w
      (Scoping.lexical.eval limit left env (.symbol Keyword.quote.name))
      (Scoping.textual.eval limit' left' () (.symbol Keyword.quote.name))
      fun _ _ _ => False := by
  cases left with
  | zero => exact symbol_zero_tracks _
  | succ left =>
      obtain ⟨left', rfl⟩ : ∃ k, left' = k + 1 := ⟨left' - 1, by omega⟩
      rw [Scoping.eval_symbol_succ, Scoping.eval_symbol_succ]
      intro m n hm
      obtain ⟨b₀, b₁, hholds⟩ := hm.frames
      have htextual : Scoping.textual.find? n.bound () Keyword.quote.name = none := hm.quote
      have hlexical : m.bound.find? .top Keyword.quote.name = none := by
        have hrel := hm.globals Keyword.quote.name
        rw [hm.quote] at hrel
        generalize m.bound.find? .top _ = o at hrel
        cases hrel
        rfl
      rw [Scoping.runFrom_resolve, Scoping.runFrom_resolve, htextual,
        hs.find?_free hholds (hs.free_keyword .quote), hlexical]
      exact .error (.refl w) hm (.refl _)

end

/-- What one run evaluates to, the other evaluates to as well, unless the
lexical run exceeds its limit. -/
theorem evaluates (limit limit' : Nat) {left left' : Nat} (hle : left ≤ left') :
    Evaluates kept (Scoping.lexical.eval limit left) (Scoping.textual.eval limit' left') := by
  -- On the levels of the lexical run, all smaller ones at once: a `let` takes two.
  induction left using Nat.strongRecOn generalizing left' with
  | ind left ih =>
      refine ⟨fun {w s env ρ e e'} h => ?_, fun hs => quote_symbol_tracks hs hle⟩
      obtain ⟨hs, hyg, hcode⟩ := h
      cases hyg with
      | value hself =>
          cases hcode with
          | value _ hee =>
              rw [Scoping.eval_of_isSelfEvaluating _ _ _ _ hself,
                Scoping.eval_of_isSelfEvaluating _ _ _ _ (hee.isSelfEvaluating_eq ▸ hself)]
              exact .pure hee
          | _ => cases hself
      | symbol name => exact symbol_tracks hs hle hcode
      | empty id =>
          obtain ⟨j, items', rfl, hitems⟩ := hcode.exists_list rfl
          exact eval_list_tracks hle fun l l' hl hlt =>
            combination_tracks (ih l hlt hl) hs (by simp) (by simp) hitems
      | quote id operands =>
          obtain ⟨j, operands', rfl, hoperands⟩ := hcode.exists_quote
          exact keyword_tracks hle ih fun _ _ _ _ _ => quote_tracks hoperands
      | define hname he =>
          obtain ⟨j, expr', rfl, hexpr⟩ :=
            hcode.exists_named (by decide) (hs.free_keyword _) (hs.free List.not_mem_nil)
          exact keyword_tracks hle ih fun _ _ _ hev _ =>
            form_tracks rfl rfl (define_form_tracks hev hs hname he hexpr)
      | @defineProcedure id i name params body hname hbody hparams hyg =>
          have hplain : ∀ x ∈ name :: params, Plain x :=
            List.forall_mem_cons.2 ⟨hname.toPlain, hparams.plain⟩
          obtain ⟨j, i', body', rfl, hbody'⟩ :=
            hcode.exists_headed (by decide) (hs.free_keyword _) hplain
              fun x _ => hs.free List.not_mem_nil
          exact keyword_tracks hle ih fun _ _ _ _ _ => form_tracks
            (Form.parse_defineProcedure name hparams.nodup i hbody)
            (Form.parse_defineProcedure name hparams.nodup i' (Code.ne_nil hbody' hbody))
            (defineProcedure_tracks hs hname hparams hyg hbody')
      | assign hname hfree he =>
          obtain ⟨j, expr', rfl, hexpr⟩ :=
            hcode.exists_named (by decide) (hs.free_keyword _) (hs.free hfree)
          exact keyword_tracks hle ih fun _ _ _ hev _ =>
            form_tracks rfl rfl (assign_form_tracks hev hs hname hfree he hexpr)
      | ite hyg =>
          obtain ⟨j, operands', rfl, hoperands⟩ :=
            hcode.exists_form (by decide) (hs.free_keyword _)
          exact keyword_tracks hle ih fun _ _ _ hev _ => ite_tracks hev hs hyg hoperands
      | cond hyg hbare =>
          obtain ⟨j, operands', rfl, hoperands⟩ :=
            hcode.exists_form (by decide) (hs.free_keyword _)
          exact keyword_tracks hle ih fun _ _ _ hev _ =>
            form_tracks rfl rfl (cond_tracks hev hs hyg hbare hoperands)
      | sequence hyg =>
          obtain ⟨j, operands', rfl, hoperands⟩ :=
            hcode.exists_form (by decide) (hs.free_keyword _)
          exact keyword_tracks hle ih fun _ _ _ hev _ =>
            form_tracks rfl rfl (sequence_tracks hev hs hyg hoperands)
      | @bind _ id i body pairs hbody hparams hsettled hyg =>
          obtain ⟨j, operands', exprs, body', rfl, hparse, hexprs, hbody'⟩ :=
            hcode.exists_let (hs.free_keyword _) hparams.plain
              (fun x hx => hs.free (hparams.new x hx)) hbody
          exact keyword_tracks hle ih fun _ _ hle' _ hev => form_tracks
            (Form.parse_let hbody (Form.pairs_toValue i pairs)) hparse
            (let_tracks hle' hev hs hparams hsettled hexprs hyg hbody')
      | lambda hparams hyg =>
          obtain ⟨j, i', operands', rfl, hoperands⟩ :=
            hcode.exists_headed (by decide) (hs.free_keyword _) hparams.plain
              fun x hx => hs.free (hparams.new x hx)
          match hoperands with
          | .cons hbody .nil =>
              exact keyword_tracks hle ih fun _ _ _ _ _ => form_tracks
                (Form.parse_lambda hparams.nodup _ _) (Form.parse_lambda hparams.nodup _ _)
                (procedure_tracks hs hparams hyg hbody)
      | @misfit _ k id operands hfit =>
          obtain ⟨j, operands', rfl, hoperands⟩ :=
            hcode.exists_form hfit.ne_quote (hs.free_keyword _)
          exact keyword_tracks hle ih fun _ _ _ _ _ => misfit_tracks hs hfit hoperands
      | @combination _ id head rest hhead hyg =>
          obtain ⟨j, items', rfl, hitems⟩ :=
            hcode.exists_list (Textual.isQuotation_eq_false_of_keyword? hhead rest)
          refine eval_list_tracks hle fun l l' hl hlt =>
            combination_tracks (ih l hlt hl) hs ?_ hyg hitems
          intro e he
          cases he
          exact hhead

end TwinScheme

import TwinScheme.Proofs.Lexical.Twins

/-!
# Evaluating corresponding code

Linked memories stay linked while corresponding code is evaluated, and the
results correspond. This is the lockstep of renaming: names are looked up,
assigned and defined on both sides under the name and what becomes of it, forms
are read with corresponding parts, and a call makes corresponding frames.

The renamed `lambda` is the only place where the two sides differ in kind. It is
read on both sides with parameters that code inside may have; from then on the
procedures it makes are those whose calls make base frames, and entering one is
what leads inside.
-/

namespace TwinScheme

open List (Forall₂)

/-- Computations that take as many identities as each other. -/
def Fresh.Beside {α β : Type} (x : Fresh α) (y : Fresh β) (P : α → β → Prop) : Prop :=
  ∀ i j, P (x i).1 (y j).1 ∧ ∃ k, (x i).2 = i + k ∧ (y j).2 = j + k

namespace Renaming

variable {R : Renaming}

/-- Two runs of corresponding code. -/
def Terms.lockstep (T : R.Terms) : Lockstep Scoping.lexical Scoping.lexical where
  World := R.World
  le := World.Le
  le_refl := .refl
  le_trans := .trans
  memory := Linked T
  value w := Matches w.pairs
  value_mono _ _ _ _ h hab := hab.mono h.pairs
  error := T.error
  excused _ := False
  code w env env' e e' :=
    ∃ μ, Chains w.frames μ env.frames env'.frames ∧ R.Code w.pairs μ .expression e e'

/-! ## What `let` and bodies are put together into -/

section

variable {W : Correspondence} {μ : Mode}

theorem symbols_code {p : Position} {names : List String} (h : ∀ a ∈ names, R.Allows μ a) :
    Forall₂ (R.Code W μ p) (names.map .symbol) ((names.map (R.rename μ)).map .symbol) := by
  rw [List.map_map, List.forall₂_map_left_iff, List.forall₂_map_right_iff, List.forall₂_same]
  exact fun a ha => .symbol (h a ha)

theorem begin_code {i j : Identity} {body body' : List Value}
    (h : Forall₂ (R.Code W μ .expression) body body') :
    R.Code W μ .expression (Keyword.begin.form i body) (Keyword.begin.form j body') := by
  cases h with
  | nil => exact .bare nofun
  | cons ha has => exact .form nofun ha (codes_iff.2 has)

theorem single_beside {body body' : List Value}
    (h : Forall₂ (R.Code W μ .expression) body body') :
    (Form.single body).Beside (Form.single body') (R.Code W μ .expression) := by
  intro i j
  match h with
  | .nil => exact ⟨begin_code .nil, 1, rfl, rfl⟩
  | .cons ha .nil => exact ⟨ha, 0, rfl, rfl⟩
  | .cons ha (.cons hb hbs) => exact ⟨begin_code (.cons ha (.cons hb hbs)), 1, rfl, rfl⟩

/-- What two pairs of a `let` bind. -/
def Binds (R : Renaming) (W : Correspondence) (μ : Mode) (p p' : String × Value) : Prop :=
  p'.1 = R.rename μ p.1 ∧ R.Allows μ p.1 ∧ R.Code W μ .expression p.2 p'.2

theorem binderName_checked (hcalls : ∀ {f g}, W.calls f g → f.Like R.names g)
    {p p' : Value × Value} (h : R.Code W μ .expression p.1 p'.1 ∧ R.Code W μ .expression p.2 p'.2) :
    Checked R.names (R.Binds W μ) (Lexical.binderName p) (Lexical.binderName p') := by
  obtain ⟨v, e⟩ := p
  obtain ⟨v', e'⟩ := p'
  obtain ⟨hv, he⟩ := h
  cases hsymbol : v.isSymbol with
  | true =>
      cases v with
      | symbol a =>
          obtain ⟨rfl, ha⟩ := hv.symbol_left
          exact .ok ⟨rfl, ha, he⟩
      | _ => cases hsymbol
  | false =>
      rw [Lexical.binderName_eq_error hsymbol,
        Lexical.binderName_eq_error (hv.isSymbol_eq ▸ hsymbol)]
      exact .refused (.type (.bindingNotSymbol (hv.like hcalls)))

theorem callOfLet_beside {named named' : List (String × Value)} {body body' : List Value}
    (hnamed : Forall₂ (R.Binds W μ) named named')
    (hbody : Forall₂ (R.Code W μ .expression) body body') :
    (Lexical.callOfLet named body).Beside (Lexical.callOfLet named' body')
      (R.Code W μ .expression) := by
  have hnames : named'.map (·.1) = (named.map (·.1)).map (R.rename μ) := by
    induction hnamed with
    | nil => rfl
    | cons h _ ih => rw [List.map_cons, List.map_cons, List.map_cons, h.1, ih]
  have hallowed : ∀ a ∈ named.map (·.1), R.Allows μ a := by
    clear hnames
    induction hnamed with
    | nil => nofun
    | cons h _ ih => exact List.forall_mem_cons.2 ⟨h.2.1, ih⟩
  have hexprs : Forall₂ (R.Code W μ .expression) (named.map (·.2)) (named'.map (·.2)) := by
    rw [List.forall₂_map_left_iff, List.forall₂_map_right_iff]
    exact hnamed.imp fun _ _ h => h.2.2
  intro i j
  rw [Lexical.callOfLet_eq, Lexical.callOfLet_eq, hnames]
  refine ⟨.combination rfl ?_ (codes_iff.2 hexprs), 4, rfl, rfl⟩
  exact .form nofun (.parts (codes_iff.2 (symbols_code hallowed)))
    (.cons (begin_code hbody) .nil)

end

/-! ## Steps -/

section

variable {T : R.Terms} {w : R.World} {μ : Mode} {env env' : Environment}

theorem list_tracks {vs vs' : List Value} (h : Forall₂ (Matches w.pairs) vs vs') :
    T.lockstep.Tracks w (Eval.list vs) (Eval.list vs') T.lockstep.value := by
  intro m n hm
  rw [Eval.runFrom_list, Eval.runFrom_list]
  have hlink := hm.link (t := .list m.supply) (u := .list n.supply) rfl rfl (congrArg _)
  refine .ok (World.le_link _) hlink (.list (.inr ⟨rfl, rfl⟩) ?_)
  exact h.imp fun _ _ hab => hab.mono (World.le_link _).pairs

theorem supply_tracks {α β : Type} {x : Fresh α} {y : Fresh β} {P : α → β → Prop}
    (h : x.Beside y P) :
    T.lockstep.Tracks w (Eval.supply x) (Eval.supply y) fun _ => P := by
  intro m n hm
  rw [Eval.runFrom_supply, Eval.runFrom_supply]
  obtain ⟨hp, k, hx, hy⟩ := h m.supply n.supply
  rw [hx, hy]
  exact .ok (.refl w) (hm.take (Nat.le_add_right _ _) (Nat.le_add_right _ _) fun heq => by
    rw [heq]) hp

theorem checked_tracks {α β : Type} {x : Except Error α} {y : Except Error β}
    {P : α → β → Prop} (h : Checked R.names P x y) :
    T.lockstep.Tracks w (Eval.ofExcept x) (Eval.ofExcept y) fun _ => P := by
  cases h with
  | ok hab => exact .pure hab
  | refused he => exact .throw (T.raised he)

theorem procedure_tracks {params params' : List String} {body body' : Value}
    (h : ∀ i j, R.Sound w.pairs w.frames (.closure i params body env)
      (.closure j params' body' env')) :
    T.lockstep.Tracks w (Scoping.lexical.procedure env (params.map .symbol) body)
      (Scoping.lexical.procedure env' (params'.map .symbol) body') T.lockstep.value := by
  intro m n hm
  rw [runFrom_procedure, runFrom_procedure]
  have hlink := hm.link (t := .closure m.supply) (u := .closure n.supply) rfl rfl (congrArg _)
  have hle := World.le_link
    (hm.only (t := .closure m.supply) (u := .closure n.supply) rfl rfl (congrArg _))
  have htagged : ∃ t u, (Value.closure m.supply params body env).tag? = some t ∧
      (Value.closure n.supply params' body' env').tag? = some u ∧
      (w.link _ _ (hm.only rfl rfl (congrArg _))).pairs.tags t u :=
    ⟨_, _, rfl, rfl, .inr ⟨rfl, rfl⟩⟩
  have hsound := (h m.supply n.supply).mono hle.pairs hle.frames
  refine .ok (hle.trans (World.le_adjoin rfl rfl htagged hsound))
    (hlink.adjoin rfl rfl htagged hsound) (.created (.inr ⟨rfl, rfl⟩))

theorem resolve_tracks {a : String} (hchains : Chains w.frames μ env.frames env'.frames)
    (ha : R.Allows μ a) :
    T.lockstep.Tracks w (Scoping.lexical.resolve env a)
      (Scoping.lexical.resolve env' (R.rename μ a)) T.lockstep.value := by
  intro m n hm
  have hrel := hm.find? hchains ha
  have hunbound := hm.rename_of_unbound hchains ha
  have hfind : Scoping.lexical.find? = Heap.find? := rfl
  rw [Scoping.runFrom_resolve, Scoping.runFrom_resolve, hfind]
  generalize m.bound.find? env a = o at hrel hunbound
  generalize n.bound.find? env' (R.rename μ a) = o' at hrel
  cases hrel with
  | none => exact .error (.refl w) hm ((hunbound rfl).symm ▸ T.error_refl _)
  | some hab => exact .ok (.refl w) hm hab

theorem define_tracks {a : String} (hchains : Chains w.frames μ env.frames env'.frames) :
    T.lockstep.Defines w env env' a (R.rename μ a) := by
  intro v x x' hle hx m n hm
  exact .ok (.refl v) (hm.define (hchains.mono hle.frames) hx) trivial

theorem assign_tracks {a : String} (hchains : Chains w.frames μ env.frames env'.frames)
    (ha : R.Allows μ a) : T.lockstep.Assigns w env env' a (R.rename μ a) := by
  intro v x x' hle hx
  refine .bind (resolve_tracks (hchains.mono hle.frames) ha) fun u _ _ hu _ => ?_
  intro m n hm
  exact .ok (.refl u) (hm.overwrite (hchains.mono (hle.trans hu).frames) ha (hx.mono hu.pairs))
    trivial

/-! ## Forms -/

theorem codes_later {es es' : List Value} (hchains : Chains w.frames μ env.frames env'.frames)
    (h : Forall₂ (R.Code w.pairs μ .expression) es es') :
    Forall₂ (T.lockstep.code w env env') es es' :=
  h.imp fun _ _ he => ⟨μ, hchains, he⟩

theorem clause_step {c c' : Value} (hchains : Chains w.frames μ env.frames env'.frames)
    (h : R.Code w.pairs μ .parts c c') : T.lockstep.ClauseStep w env env' c c' := by
  have hchecked := clause_checked World.like h
  generalize hc : Form.clause c = r at hchecked
  generalize hc' : Form.clause c' = r' at hchecked
  cases hchecked with
  | refused he => exact .refused hc hc' (T.raised he)
  | @ok a b hab =>
      obtain ⟨ht, hbody⟩ := hab
      have hcodes := codes_later (T := T) hchains hbody
      cases helse : Form.isElse a.1 with
      | true => exact .otherwise hc hc' helse (ht.isElse_eq.trans helse) hcodes
      | false => exact .tested hc hc' helse (ht.isElse_eq.trans helse) ⟨μ, hchains, ht⟩ hcodes

theorem lambda_tracks {params params' : List Value} {body body' : Value}
    (hparams : Forall₂ (R.Code w.pairs μ .expression) params params')
    (h : ∀ names, params = names.map .symbol → (∀ a ∈ names, R.Allows μ a) →
      ∀ i j, R.Sound w.pairs w.frames (.closure i names body env)
        (.closure j (names.map (R.rename μ)) body' env')) :
    T.lockstep.Tracks w (Scoping.lexical.procedure env params body)
      (Scoping.lexical.procedure env' params' body') T.lockstep.value := by
  have hchecked := parameterNames_checked World.like hparams
  generalize hp : Form.parameterNames params = r at hchecked
  generalize hp' : Form.parameterNames params' = r' at hchecked
  cases hchecked with
  | refused he =>
      have hthrow : ∀ {env : Environment} {params : List Value} {body : Value} {e : Error},
          Form.parameterNames params = .error e →
          Scoping.lexical.procedure env params body = throw e := by
        intro env params body e hp
        simp only [Scoping.procedure, Scoping.lexical, Lexical.close, hp]
        rfl
      rw [hthrow hp, hthrow hp']
      exact .throw (T.raised he)
  | @ok names _ hnames =>
      obtain ⟨rfl, hallowed⟩ := hnames
      rw [Form.eq_of_parameterNames hp']
      obtain rfl := Form.eq_of_parameterNames hp
      exact procedure_tracks (h names rfl hallowed)

theorem expand_tracks {pairs pairs' : List (Value × Value)} {body body' : List Value}
    (hchains : Chains w.frames μ env.frames env'.frames)
    (hpairs : Forall₂ (fun p p' : Value × Value => R.Code w.pairs μ .expression p.1 p'.1 ∧
      R.Code w.pairs μ .expression p.2 p'.2) pairs pairs')
    (hbody : Forall₂ (R.Code w.pairs μ .expression) body body') :
    T.lockstep.Tracks w (Scoping.lexical.expand pairs body)
      (Scoping.lexical.expand pairs' body') fun v => Forall₂ (T.lockstep.code v env env') := by
  refine .bind (checked_tracks (Checked.mapM hpairs fun _ _ => binderName_checked World.like)) ?_
  intro v named named' hv hnamed
  refine .bind (supply_tracks (callOfLet_beside hnamed hbody)) fun u e e' hu he => ?_
  have hle := hv.trans hu
  exact .pure (.cons ⟨μ, hchains.mono hle.frames, he.mono hle.pairs⟩ .nil)

/-- Forms with corresponding parts are evaluated alike. -/
theorem form_step {f f' : Form} (hchains : Chains w.frames μ env.frames env'.frames)
    (h : R.FormCode w.pairs μ f f') : T.lockstep.FormStep w env env' f f' := by
  cases h with
  | define ha he => exact .define ⟨μ, hchains, he⟩ (define_tracks hchains)
  | defineProcedure ha hparams hbody =>
      refine .defineProcedure ?_ (define_tracks hchains)
      refine .bind (supply_tracks (single_beside hbody)) fun v b b' hv hb => ?_
      exact procedure_tracks fun i j =>
        .of_mode (hchains.mono hv.frames) hparams (hb.mono hv.pairs)
  | assign ha he => exact .assign ⟨μ, hchains, he⟩ (assign_tracks hchains ha)
  | ite ht hy hn =>
      refine .ite ⟨μ, hchains, ht⟩ ⟨μ, hchains, hy⟩ ?_
      cases hn with
      | none => exact .none
      | some hn => exact .some ⟨μ, hchains, hn⟩
  | cond hclauses => exact .cond (hclauses.imp fun _ _ => clause_step hchains)
  | sequence hbody => exact .sequence (codes_later hchains hbody)
  | bind hpairs hbody => exact .bind (expand_tracks hchains hpairs hbody)
  | lambda hparams hbody =>
      exact .lambda (lambda_tracks hparams fun names _ hallowed i j =>
        .of_mode hchains hallowed hbody)

theorem checked_step {k : Keyword} {i j : Identity} {rest rest' : List Value}
    (hchains : Chains w.frames μ env.frames env'.frames)
    (h : Checked R.names (R.FormCode w.pairs μ) (Form.parse k rest) (Form.parse k rest')) :
    T.lockstep.Step w env env' (k.form i rest) (k.form j rest') := by
  generalize hp : Form.parse k rest = r at h
  generalize hp' : Form.parse k rest' = r' at h
  cases h with
  | refused he => exact .refused k.ofName?_name k.ofName?_name hp hp' (T.raised he)
  | ok hf => exact .form k.ofName?_name k.ofName?_name hp hp' (form_step hchains hf)

theorem quotation_step {i j : Identity} {operands operands' : List Value}
    (h : Forall₂ (Matches w.pairs) operands operands') :
    T.lockstep.Step w env env' (Keyword.quote.form i operands)
      (Keyword.quote.form j operands') := by
  have hk := Keyword.ofName?_name .quote
  match h with
  | .nil => exact .refused hk hk rfl rfl (T.error_refl _)
  | .cons hd .nil => exact .form hk hk rfl rfl (.quote hd)
  | .cons _ (.cons _ hrest) =>
      refine .refused hk hk rfl rfl ?_
      simp only [List.length_cons, hrest.length_eq]
      exact T.error_refl _

/-- The renamed `lambda` makes procedures that do the same. -/
theorem here_step {i j i' j' : Identity} {body body' : Value} {params : List String}
    (hchains : Chains w.frames .outside env.frames env'.frames) (hx : R.parameter ∈ params)
    (hparams : ∀ a ∈ params, R.Allows .inside a)
    (hbody : R.Code w.pairs .inside .expression body body') :
    T.lockstep.Step w env env'
      (Keyword.lambda.form i [.list j (params.map .symbol), body])
      (Keyword.lambda.form i' [.list j' ((params.map R.names).map .symbol), body']) := by
  have hk := Keyword.ofName?_name .lambda
  have hchecked : Checked R.names (Forall₂ (R.Code w.pairs .inside .expression))
      (Form.distinct (params.map .symbol))
      (Form.distinct ((params.map R.names).map .symbol)) :=
    distinct_checked (symbols_code hparams)
  have hparse : ∀ (j : Identity) (items : List Value) (body : Value),
      Form.parse .lambda [.list j items, body] =
        (Form.distinct items).map fun params => .lambda params body := fun _ _ _ => rfl
  have hsteps := hparse j (params.map .symbol) body
  have hsteps' := hparse j' ((params.map R.names).map .symbol) body'
  generalize hd : Form.distinct (params.map .symbol) = r at hchecked hsteps
  generalize hd' : Form.distinct ((params.map R.names).map .symbol) = r' at hchecked hsteps'
  cases hchecked with
  | refused he => exact .refused hk hk hsteps hsteps' (T.raised he)
  | ok =>
      obtain rfl := Form.eq_of_distinct hd
      obtain rfl := Form.eq_of_distinct hd'
      refine .form hk hk hsteps hsteps' (.lambda (procedure_tracks fun i j => ?_))
      exact .closure .base hchains hparams (fun _ => hx) hbody

/-- Corresponding expressions have the same shape, with corresponding parts. -/
theorem code_step {e e' : Value} (hchains : Chains w.frames μ env.frames env'.frames)
    (h : R.Code w.pairs μ .expression e e') : T.lockstep.Step w env env' e e' := by
  cases h with
  | value hself hW => exact .value hself (hW.isSelfEvaluating_eq ▸ hself) hW
  | symbol ha => exact .symbol (resolve_tracks hchains ha)
  | quotation hW => exact quotation_step hW
  | empty => exact .empty
  | combination hk hhead hrest =>
      exact .combination hk (hhead.keyword?_eq.trans hk) ⟨μ, hchains, hhead⟩
        (codes_later hchains (codes_iff.1 hrest))
  | bare hk => exact checked_step hchains (parse_bare hk)
  | form hk ha has => exact checked_step hchains (parse_form World.like hk ha (codes_iff.1 has))
  | here hx hparams hbody => exact here_step hchains hx hparams hbody

/-! ## Calls -/

/-- Calls of procedures that do the same make corresponding frames, or fail for the
number of arguments. -/
theorem enter_closure {i j : Identity} {params : List String} {body body' : Value}
    {args args' : List Value} (k : Kind) (hchains : Chains w.frames k.origin env.frames env'.frames)
    (hx : k = .base → R.parameter ∈ params) (hbody : R.Code w.pairs k.mode .expression body body')
    (hargs : Forall₂ (Matches w.pairs) args args') :
    T.lockstep.Tracks w (Lexical.enter (.closure i params body env) args)
      (Lexical.enter (.closure j (params.map (R.rename k.mode)) body' env') args')
      fun v r r' => T.lockstep.code v r.1 r'.1 r.2 r'.2 := by
  rw [Lexical.enter, Lexical.enter, List.length_map, ← hargs.length_eq]
  by_cases hlen : params.length = args.length
  · rw [if_neg (not_not.2 hlen), if_neg (not_not.2 hlen)]
    intro m n hm
    have hframes := frame_rel (rename_injective (R := R) k.mode) params hargs
    have hpush := hm.push hframes fun hk => Lexical.contains_frame hlen (hx hk)
    have hle := World.le_extend (k := k) (j := n.bound.frames.size) hm.frames_size
    refine .ok hle hpush ⟨k.mode, .cons ?_ (hchains.mono hle.frames), hbody⟩
    rw [World.frames_extend]
    exact if_pos rfl
  · rw [if_pos hlen, if_pos hlen]
    exact .throw (T.error_refl _)

theorem enter_tracks {f f' : Value} {args args' : List Value} (hf : Matches w.pairs f f')
    (hargs : Forall₂ (Matches w.pairs) args args') :
    T.lockstep.Tracks w (Lexical.enter f args) (Lexical.enter f' args')
      fun v r r' => T.lockstep.code v r.1 r'.1 r.2 r'.2 := by
  have hlike := hf.like World.like
  cases hf with
  | created hcalls =>
      cases w.sound hcalls with
      | closure k hchains _ hx hbody => exact enter_closure k hchains hx hbody hargs
      | lambda => exact .throw (T.raised (.type (.notApplicable hlike)))
  | _ => exact .throw (T.raised (.type (.notApplicable hlike)))

end

/-! ## Reading -/

mutual

/-- One datum read by both runs. -/
theorem toValue_tracks {T : R.Terms} : ∀ (d : Datum) (w : R.World),
    T.lockstep.Tracks w (Eval.supply d.toValue) (Eval.supply d.toValue) T.lockstep.value
  | .int n, _ => .pure (.int n)
  | .float x, _ => .pure (.float x)
  | .symbol name, _ => .pure (.symbol name)
  | .list items, w => (toValues_tracks items w).bind fun _ _ _ _ h => list_tracks h

theorem toValues_tracks {T : R.Terms} : ∀ (ds : List Datum) (w : R.World),
    T.lockstep.Tracks w (Eval.supply (Datum.toValues ds)) (Eval.supply (Datum.toValues ds))
      fun v => Forall₂ (Matches v.pairs)
  | [], _ => .pure .nil
  | d :: ds, w => (toValue_tracks d w).bind fun v _ _ _ hab =>
      (toValues_tracks ds v).bind fun _ _ _ hu habs => .pure (.cons (hab.mono hu.pairs) habs)

end

/-! ## The lockstep -/

variable {T : R.Terms}

/-- What the evaluators share is the same for both runs. -/
theorem Terms.bridge_lawful : T.lockstep.toBridge.Lawful where
  error_eval _ := T.error_refl _
  bool _ b := .bool b
  unspecified _ := .unspecified
  truthy h := h.isTruthy_eq
  list := list_tracks
  primitive h := by
    cases h with
    | primitive p => rfl
    | created hcalls => cases (Correspondence.created _ hcalls).1
  created h hp p := by
    rintro rfl
    cases h with
    | primitive p => exact hp p rfl
    | created hcalls => cases (Correspondence.created _ hcalls).2
  call {w} _ _ p h := by
    have hcall := p.call_likewise h
    generalize p.call _ = r at hcall
    generalize p.call _ = r' at hcall
    cases hcall with
    | error he =>
        cases he with
        | refl => exact .error (T.error_refl _)
        | needsProcedure p hgot =>
            exact .error (T.raised (.type (.needsProcedure p (hgot.like World.like))))
    | ok houtcome =>
        cases houtcome with
        | value hv => exact .value hv
        | fresh hvs => exact .fresh hvs
        | each hf hcalls => exact .each hf hcalls

theorem Terms.lockstep_lawful : T.lockstep.Lawful where
  bridge := T.bridge_lawful
  not_excused _ h := h
  persists env env' := by
    rintro v w e e' hle ⟨μ, hchains, he⟩
    exact ⟨μ, hchains.mono hle.frames, he.mono hle.pairs⟩
  step := by
    rintro w env env' e e' ⟨μ, hchains, he⟩
    exact code_step hchains he
  leave := by
    rintro w env env' b b' e f ⟨μ, -, hb⟩ he
    exact T.within he (hb.like World.like)
  enter hf _ hargs := enter_tracks hf hargs

end Renaming

end TwinScheme

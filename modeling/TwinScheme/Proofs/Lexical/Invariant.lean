import TwinScheme.Proofs.Evaluator.Failures
import TwinScheme.Proofs.Evaluator.Forms
import TwinScheme.Proofs.Evaluator.Indifference
import TwinScheme.Proofs.Evaluator.Lockstep
import TwinScheme.Proofs.Evaluator.Supply
import TwinScheme.Proofs.Lexical.Occurrence

/-!
# What a lexical run keeps

An invariant of evaluation is a property of memories that every step keeps, and
it is seldom about memories alone: to survive a call it has to say what the
closures in memory are like, and to survive an evaluation which expressions may
be evaluated where. An `Invariant` says the three of them, in worlds that grow
with the run, and which errors it lets pass.

A run that keeps an invariant is a run in lockstep with itself, so the walk
through the evaluator is not repeated. `Lawful` lists what is left: how the
parts of an expression follow from the whole, and what a definition, an
assignment and a new frame do to memory. That anything other than a look-up
could report an unbound name is ruled out once and for all, so an invariant
under which nothing is unbound needs to speak of look-ups only.
-/

namespace TwinScheme

open List (Forall₂)

/-- A property that evaluation may keep. -/
structure Invariant where
  /-- What is known so far. -/
  World : Type
  le : World → World → Prop
  le_refl : ∀ w, le w w
  le_trans : ∀ {u v w}, le u v → le v w → le u w
  /-- What closures are like. -/
  procedure : World → List String → Value → Environment → Prop
  procedure_mono : ∀ {v w params body env}, le v w → procedure v params body env →
    procedure w params body env
  memory : World → Memory Heap → Prop
  /-- The expressions that may be evaluated, each in an environment. -/
  code : World → Environment → Value → Prop
  /-- The errors that may come out. -/
  error : Error → Prop

namespace Invariant

variable (I : Invariant)

/-- What values are like: it depends on the closures in them. -/
def value (w : I.World) (v : Value) : Prop :=
  v.Closures (I.procedure w)

/-- How a run may end. -/
inductive Keeps {α : Type} (w : I.World) (Q : I.World → α → Prop) :
    Except Error α × Memory Heap → Prop
  | ok {v a m} : I.le w v → I.memory v m → Q v a → Keeps w Q (.ok a, m)
  | error {v e m} : I.le w v → I.memory v m → I.error e → Keeps w Q (.error e, m)

/-- A definition of a name keeps the invariant, now and later. -/
def Defines (w : I.World) (env : Environment) (x : String) : Prop :=
  ∀ v m a, I.le w v → I.memory v m → I.value v a →
    ∃ u, I.le v u ∧ I.memory u ⟨m.supply, m.bound.define env x a⟩

/-- So does an assignment to a name, if it means something. -/
def Assigns (w : I.World) (env : Environment) (x : String) : Prop :=
  ∀ v m a, I.le w v → I.memory v m → I.value v a →
    match m.bound.find? env x with
    | some _ => ∃ u, I.le v u ∧ I.memory u ⟨m.supply, m.bound.overwrite env x a⟩
    | none => I.error (.unbound x)

/-- The special forms that may be evaluated. -/
inductive FormCode (w : I.World) (env : Environment) : Form → Prop
  | quote {d} : I.value w d → FormCode w env (.quote d)
  | define {x e} : I.code w env e → I.Defines w env x → FormCode w env (.define x e)
  | defineProcedure {x params body} :
      (Form.single body).Ensures (fun b => ∀ id, I.value w (.closure id params b env)) →
      I.Defines w env x → FormCode w env (.defineProcedure x params body)
  | assign {x e} : I.code w env e → I.Assigns w env x → FormCode w env (.assign x e)
  | ite {t y n} : I.code w env t → I.code w env y → (∀ e ∈ n, I.code w env e) →
      FormCode w env (.ite t y n)
  | cond {clauses} :
      (∀ c ∈ clauses, ∀ t b, Form.clause c = .ok (t, b) →
        (Form.isElse t = false → I.code w env t) ∧ ∀ e ∈ b, I.code w env e) →
      FormCode w env (.cond clauses)
  | sequence {body} : (∀ e ∈ body, I.code w env e) → FormCode w env (.sequence body)
  | bind {pairs body} :
      (∀ named, pairs.mapM Lexical.binderName = .ok named →
        (Lexical.callOfLet named body).Ensures (I.code w env)) →
      FormCode w env (.bind pairs body)
  | lambda {params body} :
      (∀ names, Form.parameterNames params = .ok names →
        ∀ id, I.value w (.closure id names body env)) →
      FormCode w env (.lambda params body)

/-- What an invariant has to provide. -/
structure Lawful : Prop where
  code_mono : ∀ {v w env e}, I.le v w → I.code v env e → I.code w env e
  error : ∀ {e}, e.isUnbound = false → I.error e
  supply : ∀ {w m k}, I.memory w m → m.supply ≤ k → I.memory w ⟨k, m.bound⟩
  value : ∀ {w env e}, I.code w env e → e.isSelfEvaluating = true → I.value w e
  symbol : ∀ {w env x m}, I.code w env (.symbol x) → I.memory w m →
    match m.bound.find? env x with
    | some v => I.value w v
    | none => I.error (.unbound x)
  combination : ∀ {w env id items}, I.code w env (.list id items) →
    (∀ head ∈ items.head?, Form.keyword? head = none) → ∀ e ∈ items, I.code w env e
  form : ∀ {w env id head rest k f}, I.code w env (.list id (head :: rest)) →
    Form.keyword? head = some k → Form.parse k rest = .ok f → I.FormCode w env f
  enter : ∀ {w params body env args m}, I.procedure w params body env →
    I.value w body → (∀ a ∈ args, I.value w a) → params.length = args.length → I.memory w m →
    ∃ v, I.le w v ∧
      I.memory v ⟨m.supply, m.bound.push (Lexical.frame params args)⟩ ∧
      I.code v ⟨m.bound.frames.size, env.frames⟩ body

variable {I}

theorem value_mono {v w : I.World} {a : Value} (h : I.le v w) (ha : I.value v a) : I.value w a :=
  ha.mono fun _ _ _ => I.procedure_mono h

theorem Lawful.within (hI : I.Lawful) {e : Error} (he : I.error e) (body : Value) :
    I.error (e.within body) := by
  cases hu : e.isUnbound with
  | true =>
      cases e with
      | unbound x => exact he
      | _ => cases hu
  | false => exact hI.error ((Error.isUnbound_within body e).trans hu)

/-- A form may be evaluated if the closures in it are as they should be and its
place is one where anything else may be done. -/
theorem FormCode.of_closures {w : I.World} {env : Environment} {f : Form}
    (hcode : ∀ e, I.value w e → I.code w env e)
    (hprocedure : ∀ params body, I.procedure w params body env)
    (hdefines : ∀ x, I.Defines w env x) (hassigns : ∀ x, I.Assigns w env x)
    (hf : f.Closures (I.procedure w)) : I.FormCode w env f := by
  cases f with
  | quote datum => exact .quote hf
  | define name expr => exact .define (hcode _ hf) (hdefines name)
  | defineProcedure name params body =>
      refine .defineProcedure ?_ (hdefines name)
      exact (Form.single_closures hf).imp fun b hb id =>
        Value.Closures.closure_iff.2 ⟨hprocedure params b, hb⟩
  | assign name expr => exact .assign (hcode _ hf) (hassigns name)
  | ite test yes no =>
      exact .ite (hcode _ hf.1) (hcode _ hf.2.1) fun e he => hcode _ (hf.2.2 e he)
  | cond clauses =>
      refine .cond fun c hc t b h => ?_
      obtain ⟨ht, hb⟩ := Form.clause_closures h (hf c hc)
      exact ⟨fun _ => hcode _ ht, fun e he => hcode _ (hb e he)⟩
  | sequence body => exact .sequence fun e he => hcode _ (hf e he)
  | bind pairs body =>
      refine .bind fun named h => ?_
      exact (Lexical.callOfLet_closures (Lexical.binderNames_closures h hf.1) hf.2).imp hcode
  | lambda params body =>
      exact .lambda fun names _ id => Value.Closures.closure_iff.2 ⟨hprocedure names body, hf⟩

/-! ## A run beside itself -/

variable (I)

/-- A run in lockstep with itself. -/
def lockstep : Lockstep Scoping.lexical Scoping.lexical where
  World := I.World
  le := I.le
  le_refl := I.le_refl
  le_trans := I.le_trans
  memory w m n := m = n ∧ I.memory w m
  value w := Matches (.diagonal (I.procedure w))
  value_mono v w a b hle h := by
    rw [Matches.diagonal_iff] at h ⊢
    exact ⟨h.1, value_mono hle h.2⟩
  error e f := e = f ∧ I.error e
  excused _ := False
  code w env env' e e' := env = env' ∧ e = e' ∧ I.code w env e

variable {I}

section

variable {w : I.World} {env : Environment} {α : Type} {Q : I.World → α → Prop}

/-- What a computation keeps, said of the run alone. -/
theorem tracks_iff {x : Eval Heap α} :
    I.lockstep.Tracks w x x (fun v a b => a = b ∧ Q v a) ↔
      ∀ m, I.memory w m → I.Keeps w Q (Eval.runFrom m x) := by
  constructor
  · intro h m hm
    have hends := h m m ⟨rfl, hm⟩
    generalize Eval.runFrom m x = r at hends
    cases hends with
    | ok hv hm' hq => exact .ok hv hm'.2 hq.2
    | error hv hm' he => exact .error hv hm'.2 he.2
    | excused he => exact he.elim
  · rintro h m _ ⟨rfl, hm⟩
    have hkeeps := h m hm
    generalize Eval.runFrom m x = r at hkeeps
    cases hkeeps with
    | ok hv hm' hq => exact .ok hv ⟨rfl, hm'⟩ ⟨rfl, hq⟩
    | error hv hm' he => exact .error hv ⟨rfl, hm'⟩ ⟨rfl, he⟩

theorem value_tracks_iff {x : Eval Heap Value} :
    I.lockstep.Tracks w x x I.lockstep.value ↔
      ∀ m, I.memory w m → I.Keeps w I.value (Eval.runFrom m x) := by
  have hvalue : I.lockstep.value = fun v a b => a = b ∧ I.value v a := by
    funext v a b
    exact propext Matches.diagonal_iff
  rw [hvalue]
  exact tracks_iff

theorem codes {es : List Value} (h : ∀ e ∈ es, I.code w env e) :
    Forall₂ (I.lockstep.code w env env) es es :=
  List.forall₂_same.2 fun e he => ⟨rfl, rfl, h e he⟩

theorem supply_tracks (hI : I.Lawful) {x : Fresh α} {P : α → Prop} (hx : x.Ensures P) :
    I.lockstep.Tracks w (Eval.supply x) (Eval.supply x) fun _ a b => a = b ∧ P a := by
  refine tracks_iff.2 fun m hm => ?_
  obtain ⟨hp, hle⟩ := hx m.supply
  rw [Eval.runFrom_supply]
  exact .ok (I.le_refl w) (hI.supply hm hle) hp

theorem ofExcept_tracks (hI : I.Lawful) {r : Except Error α} (hr : Except.Bound r) :
    I.lockstep.Tracks w (Eval.ofExcept r) (Eval.ofExcept r) fun _ a b => a = b ∧ r = .ok a := by
  cases hr with
  | ok a => exact .pure ⟨rfl, rfl⟩
  | error he => exact .throw ⟨rfl, hI.error he⟩

theorem procedure_tracks (hI : I.Lawful) {params : List Value} {body : Value}
    (h : ∀ names, Form.parameterNames params = .ok names →
      ∀ id, I.value w (.closure id names body env)) :
    I.lockstep.Tracks w (Scoping.lexical.procedure env params body)
      (Scoping.lexical.procedure env params body) I.lockstep.value := by
  refine .bind (ofExcept_tracks hI ((Form.parameterNames_bound params).map _)) ?_
  rintro v make _ hv ⟨rfl, hmake⟩
  refine .bind (supply_tracks hI (P := fun _ => True) fun k => ⟨trivial, Nat.le_succ k⟩) ?_
  rintro u id _ hu ⟨rfl, -⟩
  have hclose : Scoping.lexical.close = Lexical.close := rfl
  rw [hclose, Lexical.close] at hmake
  cases hnames : Form.parameterNames params with
  | error e =>
      rw [hnames] at hmake
      cases hmake
  | ok names =>
      rw [hnames] at hmake
      cases hmake
      exact .pure (Matches.of_closures _
        (value_mono (I.le_trans hv hu) (h names hnames id)))

theorem Defines.tracks {x : String} (h : I.Defines w env x) :
    I.lockstep.Defines w env env x x := by
  intro v a b hv hab
  obtain ⟨rfl, ha⟩ := Matches.diagonal hab
  rintro m _ ⟨rfl, hm⟩
  obtain ⟨u, hu, hm'⟩ := h v m a hv hm ha
  exact .ok hu ⟨rfl, hm'⟩ trivial

theorem Assigns.tracks {x : String} (h : I.Assigns w env x) :
    I.lockstep.Assigns w env env x x := by
  intro v a b hv hab
  obtain ⟨rfl, ha⟩ := Matches.diagonal hab
  rintro m _ ⟨rfl, hm⟩
  have hassign := h v m a hv hm ha
  have hfind : Scoping.lexical.find? m.bound env x = m.bound.find? env x := rfl
  rw [Scoping.assign, Eval.runFrom_bind, Scoping.runFrom_resolve, hfind]
  generalize hx : m.bound.find? env x = o at hassign
  cases o with
  | none => exact .error (I.le_refl v) ⟨rfl, hm⟩ ⟨rfl, hassign⟩
  | some _ =>
      obtain ⟨u, hu, hm'⟩ := hassign
      exact .ok hu ⟨rfl, hm'⟩ trivial

theorem clauseStep (hI : I.Lawful) {c : Value}
    (h : ∀ t b, Form.clause c = .ok (t, b) →
      (Form.isElse t = false → I.code w env t) ∧ ∀ e ∈ b, I.code w env e) :
    I.lockstep.ClauseStep w env env c c := by
  have hbound := Form.clause_bound c
  cases hc : Form.clause c with
  | error e =>
      rw [hc] at hbound
      exact .refused hc hc ⟨rfl, hI.error hbound.isUnbound⟩
  | ok parts =>
      obtain ⟨t, b⟩ := parts
      obtain ⟨htest, hbody⟩ := h t b hc
      cases ht : Form.isElse t with
      | true => exact .otherwise hc hc ht ht (codes hbody)
      | false => exact .tested hc hc ht ht ⟨rfl, rfl, htest ht⟩ (codes hbody)

theorem FormCode.step (hI : I.Lawful) {f : Form} (h : I.FormCode w env f) :
    I.lockstep.FormStep w env env f f := by
  cases h with
  | quote hd => exact .quote (Matches.of_closures _ hd)
  | define he hx => exact .define ⟨rfl, rfl, he⟩ hx.tracks
  | defineProcedure hbody hx =>
      refine .defineProcedure ?_ hx.tracks
      refine .bind (supply_tracks hI hbody) ?_
      rintro v b _ hv ⟨rfl, hb⟩
      refine procedure_tracks hI fun names hnames id => ?_
      rw [Form.parameterNames_symbols] at hnames
      cases hnames
      exact value_mono hv (hb id)
  | assign he hx => exact .assign ⟨rfl, rfl, he⟩ hx.tracks
  | @ite t y n ht hy hn =>
      refine .ite ⟨rfl, rfl, ht⟩ ⟨rfl, rfl, hy⟩ ?_
      cases n with
      | none => exact .none
      | some n => exact .some ⟨rfl, rfl, hn n rfl⟩
  | cond hclauses =>
      exact .cond (List.forall₂_same.2 fun c hc => clauseStep hI (hclauses c hc))
  | sequence hbody => exact .sequence (codes hbody)
  | bind hcall =>
      refine .bind (.bind (ofExcept_tracks hI (Lexical.binderNames_bound _)) ?_)
      rintro v named _ hv ⟨rfl, hnamed⟩
      refine .bind (supply_tracks hI (hcall named hnamed)) ?_
      rintro u e _ hu ⟨rfl, he⟩
      exact .pure (.cons ⟨rfl, rfl, hI.code_mono (I.le_trans hv hu) he⟩ .nil)
  | lambda h => exact .lambda (procedure_tracks hI h)

theorem step (hI : I.Lawful) {e : Value} (h : I.code w env e) :
    I.lockstep.Step w env env e e := by
  cases hself : e.isSelfEvaluating with
  | true => exact .value hself hself (Matches.of_closures e (hI.value h hself))
  | false =>
      cases e with
      | symbol x =>
          refine .symbol (value_tracks_iff.2 fun m hm => ?_)
          have hsymbol := hI.symbol h hm
          have hfind : Scoping.lexical.find? m.bound env x = m.bound.find? env x := rfl
          rw [Scoping.runFrom_resolve, hfind]
          generalize m.bound.find? env x = o at hsymbol
          cases o with
          | none => exact .error (I.le_refl w) hm hsymbol
          | some v => exact .ok (I.le_refl w) hm hsymbol
      | list id items =>
          cases items with
          | nil => exact .empty
          | cons head rest =>
              cases hk : Form.keyword? head with
              | none =>
                  have hcodes := hI.combination h fun head' hhead' => by
                    cases hhead'
                    exact hk
                  obtain ⟨hhead, hrest⟩ := List.forall_mem_cons.1 hcodes
                  exact .combination hk hk ⟨rfl, rfl, hhead⟩ (codes hrest)
              | some k =>
                  have hbound := Form.parse_bound k rest
                  cases hp : Form.parse k rest with
                  | error e =>
                      rw [hp] at hbound
                      exact .refused hk hk hp hp ⟨rfl, hI.error hbound.isUnbound⟩
                  | ok f => exact .form hk hk hp hp ((hI.form h hk hp).step hI)
      | _ => cases hself

theorem enter_tracks (hI : I.Lawful) {f : Value} {args : List Value} (hf : I.value w f)
    (hargs : ∀ a ∈ args, I.value w a) :
    I.lockstep.Tracks w (Lexical.enter f args) (Lexical.enter f args)
      fun v r r' => I.lockstep.code v r.1 r'.1 r.2 r'.2 := by
  cases f with
  | closure id params body env =>
      obtain ⟨hprocedure, hbody⟩ := Value.Closures.closure_iff.1 hf
      rw [Lexical.enter]
      split
      · exact .throw ⟨rfl, hI.error rfl⟩
      · next hlen =>
        rintro m _ ⟨rfl, hm⟩
        obtain ⟨v, hv, hm', hcode⟩ := hI.enter hprocedure hbody hargs (not_not.1 hlen) hm
        exact .ok hv ⟨rfl, hm'⟩ ⟨rfl, rfl, hcode⟩
  | _ => exact .throw ⟨rfl, hI.error rfl⟩

theorem lockstep_lawful (hI : I.Lawful) : I.lockstep.Lawful where
  bridge := {
    error_eval := fun _ => ⟨rfl, hI.error rfl⟩
    bool := fun _ b => .bool b
    unspecified := fun _ => .unspecified
    truthy := fun h => h.isTruthy_eq
    list := by
      intro w vs vs' h
      obtain ⟨rfl, hvs⟩ := Matches.diagonal_all h
      refine value_tracks_iff.2 fun m hm => ?_
      rw [Eval.runFrom_list]
      exact .ok (I.le_refl w) (hI.supply hm (Nat.le_succ _)) (Value.Closures.list_iff.2 hvs)
    primitive := fun h => (Matches.diagonal h).1.symm
    created := fun h hp => (Matches.diagonal h).1 ▸ hp
    call := by
      intro w args args' p h
      have hbound := p.call_bound args
      have hcall := p.call_likewise h
      obtain ⟨rfl, -⟩ := Matches.diagonal_all h
      generalize p.call args = r at hbound hcall
      cases hbound with
      | error he => exact .error ⟨rfl, hI.error he⟩
      | ok outcome =>
          cases hcall with
          | ok houtcome =>
              cases houtcome with
              | value hv => exact .value hv
              | fresh hvs => exact .fresh hvs
              | each hf hcalls => exact .each hf hcalls }
  not_excused _ h := h
  persists env env' := by
    rintro v w e _ hle ⟨rfl, rfl, he⟩
    exact ⟨rfl, rfl, hI.code_mono hle he⟩
  step := by
    rintro w env _ e _ ⟨rfl, rfl, he⟩
    exact step hI he
  leave := by
    rintro w env _ b _ e _ ⟨rfl, rfl, -⟩ ⟨rfl, he⟩
    exact ⟨rfl, hI.within he b⟩
  enter := by
    intro w f f' args args' hf _ hargs
    obtain ⟨rfl, hvalue⟩ := Matches.diagonal hf
    obtain ⟨rfl, hvalues⟩ := Matches.diagonal_all hargs
    exact enter_tracks hI hvalue hvalues

end

/-! ## Evaluation and application -/

variable {w : I.World} {m : Memory Heap}

/-- Evaluation keeps the invariant, whether it succeeds or fails. -/
theorem eval_keeps (hI : I.Lawful) (limit left : Nat) {env : Environment} {e : Value}
    (he : I.code w env e) (hm : I.memory w m) :
    I.Keeps w I.value (Eval.runFrom m (Scoping.lexical.eval limit left env e)) :=
  value_tracks_iff.1 (Lockstep.eval_tracks (lockstep_lawful hI) limit left ⟨rfl, rfl, he⟩) m hm

/-- So does a call. -/
theorem apply_keeps (hI : I.Lawful) (limit left : Nat) {f : Value} {args : List Value}
    (hf : I.value w f) (hargs : ∀ a ∈ args, I.value w a) (hm : I.memory w m) :
    I.Keeps w I.value
      (Eval.runFrom m (Scoping.lexical.apply (Scoping.lexical.eval limit left) f args)) :=
  value_tracks_iff.1 (Lockstep.apply_tracks (lockstep_lawful hI)
    (Lockstep.eval_tracks (lockstep_lawful hI) limit left) (Matches.of_closures f hf)
    (Matches.of_closures_all args hargs)) m hm

end Invariant

end TwinScheme

import TwinScheme.Proofs.Lexical.Footprint

/-!
# Programs that name nothing unbound

Whether a name is bound when it is looked up is settled before a program runs,
if definitions are left out: the names that an expression takes from its
surroundings can be read off it, and an environment that binds them goes on
binding them, because no step removes a binding.

`Free` says which names these are and `Proper` which expressions are meant. A
heap is well scoped if every closure that can be got at has a proper body whose
free names are parameters or bound in the chain it captured. A run from such a
heap keeps a little more than that, since reachability itself moves: that
closures in accessible frames are of this kind, with accessible environments
(`Territory.Holds` once more), and that what was seen bound is bound. What is
left is that the rules for free names are those by which the evaluator reads
forms, with `let` read as the call it stands for.
-/

namespace TwinScheme

/-! ## Free names -/

mutual

/-- A name that an expression takes from its surroundings. -/
inductive Free (x : String) : Value → Prop
  | symbol : Free x (.symbol x)
  | form {k id operands} : FreeIn x k operands → Free x (Keyword.form k id operands)
  | combination {id head rest e} : Form.keyword? head = none → e ∈ head :: rest → Free x e →
      Free x (.list id (head :: rest))

/-- A name that a special form takes from its surroundings. A quotation takes
none, and the target of an assignment counts. -/
inductive FreeIn (x : String) : Keyword → List Value → Prop
  | target {e} : FreeIn x .set [.symbol x, e]
  | assign {y e} : Free x e → FreeIn x .set [.symbol y, e]
  | ite {e operands} : e ∈ operands → Free x e → FreeIn x .ite operands
  | test {id t body clauses} : .list id (t :: body) ∈ clauses → Form.isElse t = false →
      Free x t → FreeIn x .cond clauses
  | clause {id t e body clauses} : .list id (t :: body) ∈ clauses → e ∈ body → Free x e →
      FreeIn x .cond clauses
  | sequence {e body} : e ∈ body → Free x e → FreeIn x .begin body
  | bound {id body p} {pairs : List LetPair} : p ∈ pairs → Free x p.expr →
      FreeIn x .letForm (.list id (pairs.map (·.toValue)) :: body)
  | bind {id e body} {pairs : List LetPair} : x ∉ pairs.map (·.name) → e ∈ body → Free x e →
      FreeIn x .letForm (.list id (pairs.map (·.toValue)) :: body)
  | lambda {id body} {params : List String} : x ∉ params → Free x body →
      FreeIn x .lambda [.list id (params.map .symbol), body]

end

/-! ## Proper expressions -/

mutual

/-- An expression of well-formed special forms, none of them a definition. -/
inductive Proper : Value → Prop
  | value {e} : e.isSelfEvaluating = true → Proper e
  | symbol (name) : Proper (.symbol name)
  | empty (id) : Proper (.list id [])
  | form {k id operands} : ProperForm k operands → Proper (Keyword.form k id operands)
  | combination {id head rest} : Form.keyword? head = none → (∀ e ∈ head :: rest, Proper e) →
      Proper (.list id (head :: rest))

/-- A well-formed special form that is no definition. -/
inductive ProperForm : Keyword → List Value → Prop
  | quote (d) : ProperForm .quote [d]
  | assign {x e} : Proper e → ProperForm .set [.symbol x, e]
  | ifThen {t y} : Proper t → Proper y → ProperForm .ite [t, y]
  | ifElse {t y n} : Proper t → Proper y → Proper n → ProperForm .ite [t, y, n]
  | cond {clauses} : (∀ c ∈ clauses, ProperClause c) → ProperForm .cond clauses
  | sequence {body} : (∀ e ∈ body, Proper e) → ProperForm .begin body
  | bind {id body} {pairs : List LetPair} : body ≠ [] → (pairs.map (·.name)).Nodup →
      (∀ p ∈ pairs, Proper p.expr) → (∀ e ∈ body, Proper e) →
      ProperForm .letForm (.list id (pairs.map (·.toValue)) :: body)
  | lambda {id body} {params : List String} : params.Nodup → Proper body →
      ProperForm .lambda [.list id (params.map .symbol), body]

/-- A well-formed clause of a `cond`. -/
inductive ProperClause : Value → Prop
  | otherwise {id t body} : Form.isElse t = true → (∀ e ∈ body, Proper e) →
      ProperClause (.list id (t :: body))
  | tested {id t body} : Form.isElse t = false → Proper t → (∀ e ∈ body, Proper e) →
      ProperClause (.list id (t :: body))

end

/-! ## Well-scoped heaps -/

/-- A name is bound somewhere in an environment. -/
def Heap.Binds (h : Heap) (env : Environment) (x : String) : Prop :=
  ∃ i ∈ env.frames, (h.frame i).contains x = true

/-- A closure whose body is proper and has its free names bound. -/
structure Heap.Scoped (h : Heap) (params : List String) (body : Value) (env : Environment) :
    Prop where
  proper : Proper body
  bound : ∀ x, Free x body → x ∈ params ∨ h.Binds env x

/-- A heap in which every closure that can be got at is scoped. -/
structure Heap.WellScoped (h : Heap) (roots : List Environment) (values : List Value) :
    Prop where
  given : ∀ v ∈ values, v.Closures h.Scoped
  bindings : ∀ env, h.Reaches roots values env → ∀ i ∈ env.frames, ∀ x v,
    (h.frame i).get? x = some v → v.Closures h.Scoped

/-! ## The call that a `let` stands for -/

theorem Keyword.name_injective {k k' : Keyword} (h : k.name = k'.name) : k = k' := by
  have hname := k.ofName?_name
  rw [h, k'.ofName?_name] at hname
  exact (Option.some.inj hname).symm

theorem symbols_injective {params params' : List String}
    (h : params.map Value.symbol = params'.map Value.symbol) : params = params' :=
  List.map_injective_iff.2 (fun _ _ h => Value.symbol.inj h) h

namespace Free

variable {x : String} {id : Identity}

theorem form_iff {k : Keyword} {operands : List Value} :
    Free x (k.form id operands) ↔ FreeIn x k operands := by
  constructor
  · generalize he : k.form id operands = e
    intro h
    cases h with
    | symbol => cases he
    | @form k' id' operands' hin =>
        simp only [Keyword.form, Value.list.injEq, List.cons.injEq, Value.symbol.injEq] at he
        obtain ⟨-, hname, rfl⟩ := he
        cases Keyword.name_injective hname
        exact hin
    | combination hk =>
        cases he
        rw [Form.keyword?_name] at hk
        cases hk
  · exact .form

theorem combination_iff {head : Value} {rest : List Value} (hk : Form.keyword? head = none) :
    Free x (.list id (head :: rest)) ↔ ∃ e ∈ head :: rest, Free x e := by
  constructor
  · generalize he : Value.list id (head :: rest) = e
    intro h
    cases h with
    | symbol => cases he
    | form hin =>
        cases he
        rw [Form.keyword?_name] at hk
        cases hk
    | combination _ hmem h =>
        cases he
        exact ⟨_, hmem, h⟩
  · rintro ⟨e, he, h⟩
    exact .combination hk he h

theorem lambda_iff {i j : Identity} {params : List String} {body : Value} :
    Free x (Keyword.lambda.form i [.list j (params.map .symbol), body]) ↔
      x ∉ params ∧ Free x body := by
  rw [form_iff]
  constructor
  · generalize hp : params.map Value.symbol = symbols
    intro h
    cases h with
    | lambda hx h =>
        cases symbols_injective hp
        exact ⟨hx, h⟩
  · rintro ⟨hx, h⟩
    exact .lambda hx h

end Free

theorem Lexical.callOfLet_pairs (pairs : List LetPair) (body : List Value) (next : Identity) :
    Lexical.callOfLet (pairs.map fun p => (p.name, p.expr)) body next =
      (.list (next + 3)
        (Keyword.lambda.form (next + 2) [.list next ((pairs.map (·.name)).map .symbol),
          Keyword.begin.form (next + 1) body] :: pairs.map (·.expr)), next + 4) := by
  simp only [Lexical.callOfLet_eq, List.map_map]
  rfl

/-- The call takes no name that the `let` does not take. -/
theorem Lexical.free_callOfLet {x : String} {pairs : List LetPair} {body : List Value}
    (id : Identity) :
    (Lexical.callOfLet (pairs.map fun p => (p.name, p.expr)) body).Ensures fun call =>
      Free x call → FreeIn x .letForm (.list id (pairs.map (·.toValue)) :: body) := by
  intro next
  rw [Lexical.callOfLet_pairs]
  refine ⟨fun h => ?_, Nat.le_add_right next 4⟩
  obtain ⟨e, he, h⟩ := (Free.combination_iff rfl).1 h
  rcases List.mem_cons.1 he with rfl | he
  · obtain ⟨hx, hb⟩ := Free.lambda_iff.1 h
    cases Free.form_iff.1 hb with
    | sequence hmem h => exact .bind hx hmem h
  · obtain ⟨p, hp, rfl⟩ := List.mem_map.1 he
    exact .bound hp h

theorem Lexical.proper_callOfLet {pairs : List LetPair} {body : List Value}
    (hnodup : (pairs.map (·.name)).Nodup) (hexprs : ∀ p ∈ pairs, Proper p.expr)
    (hbody : ∀ e ∈ body, Proper e) :
    (Lexical.callOfLet (pairs.map fun p => (p.name, p.expr)) body).Ensures Proper := by
  intro next
  rw [Lexical.callOfLet_pairs]
  refine ⟨.combination rfl (List.forall_mem_cons.2 ⟨.form (.lambda hnodup ?_), ?_⟩),
    Nat.le_add_right next 4⟩
  · exact .form (.sequence hbody)
  · intro e he
    obtain ⟨p, hp, rfl⟩ := List.mem_map.1 he
    exact hexprs p hp

/-! ## What a run keeps -/

/-- The frames there are, and names seen bound in them. -/
structure Sight where
  size : Nat
  names : Nat → String → Prop

/-- A name is seen bound somewhere in an environment. -/
def Sight.Binds (w : Sight) (env : Environment) (x : String) : Prop :=
  ∃ i ∈ env.frames, w.names i x

structure Sight.Le (v w : Sight) : Prop where
  size : v.size ≤ w.size
  names : ∀ i x, v.names i x → w.names i x

theorem Sight.Le.binds {v w : Sight} (h : v.Le w) {env : Environment} {x : String}
    (hx : v.Binds env x) : w.Binds env x := by
  obtain ⟨i, hi, hx⟩ := hx
  exact ⟨i, hi, h.names i x hx⟩

/-- What is seen once a call has bound its parameters. -/
def Sight.enter (w : Sight) (params : List String) : Sight :=
  ⟨w.size + 1, fun i x => w.names i x ∨ i = w.size ∧ x ∈ params⟩

theorem Sight.le_enter (w : Sight) (params : List String) : w.Le (w.enter params) :=
  ⟨Nat.le_succ _, fun _ _ => .inl⟩

namespace Territory

variable {T : Territory} {v w : Sight} {env : Environment} {e : Value}

/-- A closure that is scoped and stays inside. -/
structure Scoped (T : Territory) (w : Sight) (params : List String) (body : Value)
    (env : Environment) : Prop where
  chain : T.Chain w.size env.frames
  proper : Proper body
  bound : ∀ x, Free x body → x ∈ params ∨ w.Binds env x

/-- An expression that names nothing unbound, in an environment that stays
inside. -/
structure Clear (T : Territory) (w : Sight) (env : Environment) (e : Value) : Prop where
  chain : T.Chain w.size env.frames
  closures : e.Closures (T.Scoped w)
  proper : Proper e
  bound : ∀ x, Free x e → w.Binds env x

theorem Scoped.mono {params : List String} {body : Value} (h : T.Scoped v params body env)
    (hle : v.Le w) : T.Scoped w params body env :=
  ⟨h.chain.mono hle.size, h.proper, fun x hx => (h.bound x hx).imp_right hle.binds⟩

theorem Clear.mono (h : T.Clear v env e) (hle : v.Le w) : T.Clear w env e :=
  ⟨h.chain.mono hle.size, h.closures.mono fun _ _ _ hc => hc.mono hle, h.proper,
    fun x hx => hle.binds (h.bound x hx)⟩

/-- So is any part of it that takes no other names. -/
theorem Clear.part {e' : Value} (h : T.Clear w env e) (hc : e'.Closures (T.Scoped w))
    (hp : Proper e') (hfree : ∀ x, Free x e' → Free x e) : T.Clear w env e' :=
  ⟨h.chain, hc, hp, fun x hx => h.bound x (hfree x hx)⟩

variable (T)

/-- A run that names nothing unbound. -/
def scoping : Invariant where
  World := Sight
  le := Sight.Le
  le_refl _ := ⟨Nat.le_refl _, fun _ _ h => h⟩
  le_trans h h' := ⟨Nat.le_trans h.size h'.size, fun i x hx => h'.names i x (h.names i x hx)⟩
  procedure := T.Scoped
  procedure_mono hle h := h.mono hle
  memory w m := T.Holds (T.Scoped w) w.size m.bound ∧
    ∀ i x, w.names i x → (m.bound.frame i).contains x = true
  code := T.Clear
  error e := e.isUnbound = false

variable {T}

theorem find?_ne_none {m : Memory Heap} {x : String} (hm : T.scoping.memory w m)
    (hx : w.Binds env x) : m.bound.find? env x ≠ none := by
  obtain ⟨i, hi, hx⟩ := hx
  intro hnone
  rw [Heap.find?_eq_findSome?, List.findSome?_eq_none_iff] at hnone
  have hcontains := hm.2 i x hx
  rw [Bindings.contains, hnone i hi] at hcontains
  cases hcontains

theorem Clear.assigns {x : String} (hchain : T.Chain w.size env.frames) (hx : w.Binds env x) :
    T.scoping.Assigns w env x := by
  intro v m a hle hm ha
  have hfound := find?_ne_none hm (hle.binds hx)
  split
  · refine ⟨v, T.scoping.le_refl v, hm.1.overwrite (hchain.mono hle.size) hfound ha, ?_⟩
    intro i y hy
    obtain ⟨j, hj, hcontains, heq⟩ := Heap.exists_overwrite_eq hfound a
    show ((m.bound.overwrite env x a).frame i).contains y = true
    rw [heq]
    exact Heap.contains_frame_write (hm.2 i y hy)
  · next hnone => exact absurd hnone hfound

/-- A proper list that a keyword heads is a proper special form. -/
theorem proper_form {id : Identity} {head : Value} {rest : List Value} {k : Keyword}
    (h : Proper (.list id (head :: rest))) (hk : Form.keyword? head = some k) :
    head = .symbol k.name ∧ ProperForm k rest := by
  generalize he : Value.list id (head :: rest) = e at h
  cases h with
  | value hself =>
      cases he
      cases hself
  | symbol | empty => cases he
  | form hform =>
      cases he
      rw [Form.keyword?_name] at hk
      cases hk
      exact ⟨rfl, hform⟩
  | combination hnone =>
      cases he
      rw [hnone] at hk
      cases hk

theorem proper_combination {id : Identity} {head : Value} {rest : List Value}
    (h : Proper (.list id (head :: rest))) (hk : Form.keyword? head = none) :
    ∀ e ∈ head :: rest, Proper e := by
  generalize he : Value.list id (head :: rest) = e at h
  cases h with
  | value hself =>
      cases he
      cases hself
  | symbol | empty => cases he
  | form =>
      cases he
      rw [Form.keyword?_name] at hk
      cases hk
  | combination _ hitems =>
      cases he
      exact hitems

/-- The parts of a form that names nothing unbound name nothing unbound. -/
theorem Clear.form {id : Identity} {k : Keyword} {operands : List Value} {f : Form}
    (h : T.Clear w env (k.form id operands)) (hform : ProperForm k operands)
    (hp : Form.parse k operands = .ok f) : T.scoping.FormCode w env f := by
  have hclosures : f.Closures (T.Scoped w) :=
    Form.parse_closures hp (List.forall_mem_cons.1 (Value.Closures.list_iff.1 h.closures)).2
  have hpart : ∀ {e : Value}, e.Closures (T.Scoped w) → Proper e →
      (∀ x, Free x e → FreeIn x k operands) → T.Clear w env e :=
    fun hc he hfree => h.part hc he fun x hx => .form (hfree x hx)
  cases hform with
  | quote d =>
      cases hp
      exact .quote hclosures
  | @assign x e he =>
      cases hp
      exact .assign (hpart hclosures he fun y => .assign)
        (Clear.assigns h.chain (h.bound x (.form .target)))
  | ifThen ht hy =>
      cases hp
      exact .ite (hpart hclosures.1 ht fun x => .ite (by simp))
        (hpart hclosures.2.1 hy fun x => .ite (by simp)) nofun
  | ifElse ht hy hn =>
      cases hp
      refine .ite (hpart hclosures.1 ht fun x => .ite (by simp))
        (hpart hclosures.2.1 hy fun x => .ite (by simp)) ?_
      rintro e ⟨⟩
      exact hpart (hclosures.2.2 _ rfl) hn fun x => .ite (by simp)
  | cond hclauses =>
      cases hp
      refine .cond fun c hc t b hclause => ?_
      obtain ⟨ht, hb⟩ := Form.clause_closures hclause (hclosures c hc)
      cases hclauses c hc with
      | otherwise helse hbody =>
          cases hclause
          refine ⟨fun hno => absurd helse (by rw [hno]; nofun), fun e he => ?_⟩
          exact hpart (hb e he) (hbody e he) fun x => .clause hc he
      | tested helse htest hbody =>
          cases hclause
          exact ⟨fun _ => hpart ht htest fun x => .test hc helse,
            fun e he => hpart (hb e he) (hbody e he) fun x => .clause hc he⟩
  | sequence hbody =>
      cases hp
      exact .sequence fun e he => hpart (hclosures e he) (hbody e he) fun x => .sequence he
  | @bind j body pairs hne hnodup hexprs hbody =>
      rw [Form.parse_let hne (Form.pairs_toValue j pairs)] at hp
      cases hp
      refine .bind fun named hnamed => ?_
      have hnamed' := Lexical.binderNames_closures hnamed hclosures.1
      rw [Lexical.mapM_binderName] at hnamed
      cases hnamed
      have hcall := (Lexical.callOfLet_closures hnamed' hclosures.2).and
        (Lexical.proper_callOfLet hnodup hexprs hbody)
      intro next
      obtain ⟨⟨hc, hproper⟩, hle⟩ := hcall next
      exact ⟨hpart hc hproper fun x => (Lexical.free_callOfLet j next).1, hle⟩
  | @lambda j body params hnodup hbody =>
      rw [Form.parse_lambda hnodup] at hp
      cases hp
      refine .lambda fun names hnames i => ?_
      rw [Form.parameterNames_symbols] at hnames
      cases hnames
      refine Value.Closures.closure_iff.2 ⟨⟨h.chain, hbody, fun x hx => ?_⟩, hclosures⟩
      by_cases hmem : x ∈ params
      · exact .inl hmem
      · exact .inr (h.bound x (.form (.lambda hmem hx)))

theorem scoping_enter {params : List String} {body : Value} {args : List Value}
    {m : Memory Heap} (hprocedure : T.Scoped w params body env)
    (hbody : body.Closures (T.Scoped w)) (hargs : ∀ a ∈ args, a.Closures (T.Scoped w))
    (hlen : params.length = args.length) (hm : T.scoping.memory w m) :
    T.scoping.memory (w.enter params) ⟨m.supply, m.bound.push (Lexical.frame params args)⟩ ∧
      T.Clear (w.enter params) ⟨m.bound.frames.size, env.frames⟩ body := by
  have hle := w.le_enter params
  have hmono : ∀ (params' : List String) (body : Value) (env : Environment),
      T.Scoped w params' body env → T.Scoped (w.enter params) params' body env :=
    fun _ _ _ h => h.mono hle
  obtain ⟨hholds, hnames⟩ := hm
  refine ⟨⟨hholds.push hmono fun a ha => (hargs a ha).mono hmono, ?_⟩, ?_⟩
  · rintro i x (hx | ⟨rfl, hx⟩)
    · have hcontains := hnames i x hx
      have hi : i ≠ m.bound.frames.size := by
        rintro rfl
        rw [Heap.frame_of_size_le (Nat.le_refl _)] at hcontains
        cases hcontains
      show ((m.bound.push (Lexical.frame params args)).frame i).contains x = true
      rw [Heap.frame_push_of_ne hi]
      exact hcontains
    · show ((m.bound.push (Lexical.frame params args)).frame w.size).contains x = true
      rw [← hholds.size_eq, Heap.frame_push_self, Bindings.contains, Lexical.get?_frame]
      exact (Locals.isSome_bind_zip _ hlen x).2 (.inl hx)
  · refine ⟨?_, hbody.mono hmono, hprocedure.proper, fun x hx => ?_⟩
    · rw [hholds.size_eq]
      exact hprocedure.chain.cons hholds.grown
    · rcases hprocedure.bound x hx with hparam | ⟨i, hi, hbound⟩
      · exact ⟨m.bound.frames.size, List.mem_cons_self, .inr ⟨hholds.size_eq, hparam⟩⟩
      · exact ⟨i, List.mem_cons_of_mem _ hi, .inl hbound⟩

theorem scoping_lawful : T.scoping.Lawful where
  code_mono hle h := h.mono hle
  error h := h
  supply hm _ := hm
  value h _ := h.closures
  symbol {w env x m} h hm := by
    have hfound := find?_ne_none hm (h.bound x .symbol)
    split
    · next hx => exact hm.1.find? h.chain hx
    · next hnone => exact absurd hnone hfound
  combination {w env id items} h hk e he := by
    cases items with
    | nil => cases he
    | cons head rest =>
        have hnone := hk head rfl
        exact h.part (h.closures.item he) (proper_combination h.proper hnone e he)
          fun x => .combination hnone he
  form {w env id head rest k f} h hk hp := by
    obtain ⟨rfl, hform⟩ := proper_form h.proper hk
    exact h.form hform hp
  enter hprocedure hbody hargs hlen hm :=
    ⟨_, Sight.le_enter _ _, scoping_enter hprocedure hbody hargs hlen hm⟩

end Territory

/-! ## Well-scoped before and after -/

section

variable {roots : List Environment} {values : List Value} {h : Heap}

/-- What is bound at the start. -/
def Heap.sight (h : Heap) : Sight :=
  ⟨h.frames.size, fun i x => (h.frame i).contains x = true⟩

theorem Heap.closures_scoped {v : Value} (hv : v.Closures h.Scoped)
    (hreach : ∀ id params body env, Value.Occurs (.closure id params body env) v →
      h.Reaches roots values env) :
    v.Closures ((Territory.reachable h roots values).Scoped h.sight) := by
  intro id params body env ho
  obtain ⟨hproper, hbound⟩ := hv id params body env ho
  exact ⟨(hreach id params body env ho).chain _, hproper, hbound⟩

theorem Heap.WellScoped.memory {m : Memory Heap} (hw : m.bound.WellScoped roots values) :
    (Territory.reachable m.bound roots values).scoping.memory m.bound.sight m := by
  refine ⟨⟨rfl, Nat.le_refl _, ?_, fun _ _ => rfl⟩, fun _ _ hx => hx⟩
  rintro i (⟨hle, hlt⟩ | ⟨rest, env, henv, hs⟩) x v hv
  · exact absurd hlt (Nat.not_lt.2 hle)
  · have hi : i ∈ env.frames := hs.subset List.mem_cons_self
    exact Heap.closures_scoped (hw.bindings env henv i hi x v hv)
      fun _ _ _ _ ho => henv.binding hi hv ho

/-- What the invariant says of a later heap is that it is well scoped. -/
theorem Heap.wellScoped_of_memory {T : Territory} {w : Sight} {m : Memory Heap}
    (hm : T.scoping.memory w m) (hroots : ∀ env ∈ roots, T.Chain w.size env.frames)
    (hvalues : ∀ v ∈ values, v.Closures (T.Scoped w)) : m.bound.WellScoped roots values := by
  have hscoped : ∀ params body env, T.Scoped w params body env →
      m.bound.Scoped params body env := by
    rintro params body env ⟨-, hproper, hbound⟩
    refine ⟨hproper, fun x hx => (hbound x hx).imp_right ?_⟩
    rintro ⟨i, hi, hx⟩
    exact ⟨i, hi, hm.2 i x hx⟩
  have hchain : ∀ env, m.bound.Reaches roots values env → T.Chain w.size env.frames := by
    intro env henv
    induction henv with
    | root henv => exact hroots _ henv
    | value hv ho => exact (hvalues _ hv _ _ _ _ ho).chain
    | binding _ hi hv ho ih => exact (hm.1.guarded _ (ih.accessible hi) _ _ hv _ _ _ _ ho).chain
  refine ⟨fun v hv => (hvalues v hv).mono hscoped, fun env henv i hi x v hv => ?_⟩
  exact (hm.1.guarded i ((hchain env henv).accessible hi) x v hv).mono hscoped

theorem Heap.wellScoped_of_keeps {T : Territory} {v : Sight}
    {r : Except Error Value × Memory Heap} (hr : T.scoping.Keeps v T.scoping.value r)
    (hroots : ∀ env ∈ roots, T.Chain v.size env.frames)
    (hvalues : ∀ a ∈ values, a.Closures (T.Scoped v)) :
    (∀ x, r.1 ≠ .error (.unbound x)) ∧
      r.2.bound.WellScoped roots (values ++ r.1.toOption.toList) := by
  have hlater : ∀ {w : Sight}, v.Le w → (∀ env ∈ roots, T.Chain w.size env.frames) ∧
      ∀ a ∈ values, a.Closures (T.Scoped w) :=
    fun hle => ⟨fun env henv => (hroots env henv).mono hle.size,
      fun a ha => (hvalues a ha).mono fun _ _ _ hc => hc.mono hle⟩
  cases hr with
  | ok hle hm ha =>
      obtain ⟨hroots, hvalues⟩ := hlater hle
      refine ⟨nofun, Heap.wellScoped_of_memory hm hroots ?_⟩
      exact List.forall_mem_append.2 ⟨hvalues, List.forall_mem_singleton.2 ha⟩
  | error hle hm he =>
      obtain ⟨hroots, hvalues⟩ := hlater hle
      refine ⟨?_, Heap.wellScoped_of_memory hm hroots ?_⟩
      · rintro x ⟨⟩
        cases he
      · exact List.forall_mem_append.2 ⟨hvalues, nofun⟩

/-- Programs that name nothing unbound never fail for an unbound name, and leave
a heap in which that holds of every procedure. -/
theorem Scoping.evaluate_wellScoped (limit : Nat) (env : Environment) (d : Datum) (k : Identity)
    (m : Memory Heap) (roots : List Environment) (values : List Value)
    (hw : m.bound.WellScoped roots values) (henv : m.bound.Reaches roots values env)
    (hproper : Proper (d.toValue k).1) (hfree : ∀ x, Free x (d.toValue k).1 → m.bound.Binds env x) :
    let r := Eval.runFrom m (Scoping.lexical.evaluate limit env (d.toValue k).1)
    (∀ x, r.1 ≠ .error (.unbound x)) ∧
      r.2.bound.WellScoped (env :: roots) (values ++ r.1.toOption.toList) := by
  have hclear : (Territory.reachable m.bound roots values).Clear m.bound.sight env
      (d.toValue k).1 :=
    ⟨henv.chain _, (Datum.toValue_closures d k).1, hproper, hfree⟩
  refine Heap.wellScoped_of_keeps
    (Invariant.eval_keeps Territory.scoping_lawful limit limit hclear hw.memory) ?_ ?_
  · exact List.forall_mem_cons.2 ⟨henv.chain _, fun env henv => (Heap.Reaches.root henv).chain _⟩
  · exact fun v hv => Heap.closures_scoped (hw.given v hv) fun _ _ _ _ ho => .value hv ho

/-- A session starts well scoped. -/
theorem Heap.topLevel_wellScoped :
    Heap.empty.topLevel.2.WellScoped [Heap.empty.topLevel.1] [] :=
  ⟨fun _ hv => absurd hv List.not_mem_nil, fun _ _ _ _ _ _ hv => Heap.topLevel_closures hv⟩

/-- A procedure that takes `car` from its surroundings, made in a new session. -/
theorem Scoping.evaluate_wellScoped_car :
    let d := Datum.list [.symbol "lambda", .list [.symbol "x"], .list [.symbol "car", .symbol "x"]]
    let r := Eval.runFrom ⟨4, Heap.empty.topLevel.2⟩
      (Scoping.lexical.evaluate 10 Heap.empty.topLevel.1 (d.toValue 0).1)
    (∀ x, r.1 ≠ .error (.unbound x)) ∧
      r.2.bound.WellScoped [Heap.empty.topLevel.1, Heap.empty.topLevel.1]
        ([] ++ r.1.toOption.toList) := by
  have hcall : Form.keyword? (.symbol "car") = none := by decide
  refine Scoping.evaluate_wellScoped 10 Heap.empty.topLevel.1 _ 0 ⟨4, Heap.empty.topLevel.2⟩
    [Heap.empty.topLevel.1] [] Heap.topLevel_wellScoped (.root List.mem_cons_self) ?_ ?_
  · refine .form (k := .lambda) (@ProperForm.lambda 0 _ ["x"] (List.nodup_singleton _) ?_)
    refine .combination hcall ?_
    simp only [List.forall_mem_cons]
    exact ⟨.symbol _, .symbol _, nofun⟩
  · intro x hx
    obtain ⟨hparam, hx⟩ := (@Free.lambda_iff _ _ _ ["x"] _).1 hx
    obtain ⟨e, he, hx⟩ := (Free.combination_iff hcall).1 hx
    rcases List.mem_pair.1 he with rfl | rfl
    · cases hx with
      | symbol => exact ⟨0, by decide, by decide⟩
    · cases hx with
      | symbol => exact absurd List.mem_cons_self hparam

end

end TwinScheme

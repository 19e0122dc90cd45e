import TwinScheme.Proofs.Evaluator.Failures

/-!
# What identities were given to

A value has an identity so that it can be told apart from its equals, and nothing
in the type of values keeps two different lists from having one identity. That it
does not happen is a property of runs: an identity is handed out once, with one
thing made for it.

A `Ledger` is a record of what was made. It grows with the run, and a value is
`Recorded` if each part of it is what the ledger has under its identity. Two
conditions on the making of values are kept in the same place, since they are
checked in the same place: the names that symbols have, and that the parameters of
a procedure are distinct.
-/

namespace TwinScheme

/-- What has been made so far. -/
structure Ledger where
  /-- The names that symbols may have. -/
  names : String → Prop
  keyword : ∀ k : Keyword, names k.name
  /-- What an identity was given to. -/
  entry : Identity → Option Value

namespace Ledger

/-- More has been made. -/
structure Le (L L' : Ledger) : Prop where
  names : L'.names = L.names
  entry : ∀ i v, L.entry i = some v → L'.entry i = some v

/-- From some identity on, none has been given away. -/
def Below (L : Ledger) (next : Identity) : Prop :=
  ∀ i, next ≤ i → L.entry i = none

/-- The ledger with one more thing in it. -/
def give (L : Ledger) (i : Identity) (v : Value) : Ledger where
  names := L.names
  keyword := L.keyword
  entry := fun j => if j = i then some v else L.entry j

variable {L L' L'' : Ledger} {next i : Identity} {v : Value}

theorem Le.refl (L : Ledger) : L.Le L :=
  ⟨rfl, fun _ _ h => h⟩

theorem Le.trans (h : L.Le L') (h' : L'.Le L'') : L.Le L'' :=
  ⟨h'.names.trans h.names, fun i v hv => h'.entry i v (h.entry i v hv)⟩

theorem give_entry : (L.give i v).entry i = some v := by
  simp [give]

theorem Below.le_give (h : L.Below next) : L.Le (L.give next v) := by
  refine ⟨rfl, fun i u hu => ?_⟩
  have hne : i ≠ next := by
    rintro rfl
    rw [h i (Nat.le_refl i)] at hu
    cases hu
  simp [give, hne, hu]

theorem Below.give (h : L.Below next) : (L.give next v).Below (next + 1) := by
  intro i hi
  have hne : i ≠ next := Nat.ne_of_gt hi
  simp [Ledger.give, hne, h i (Nat.le_of_succ_le hi)]

end Ledger

/-- Every part of a value is what its identity was given to. The parameters of a
procedure are distinct. -/
inductive Value.Recorded (L : Ledger) : Value → Prop
  | constant {v : Value} : v.isConstant = true → Recorded L v
  | symbol {x : String} : L.names x → Recorded L (.symbol x)
  | list {i items} : L.entry i = some (.list i items) → (∀ v ∈ items, Recorded L v) →
      Recorded L (.list i items)
  | closure {i params body env} : L.entry i = some (.closure i params body env) →
      params.Nodup → Recorded L body → Recorded L (.closure i params body env)
  | lambda {i params body} : L.entry i = some (.lambda i params body) →
      (Form.symbols params).Nodup → (∀ v ∈ params, Recorded L v) → Recorded L body →
      Recorded L (.lambda i params body)

namespace Value.Recorded

variable {L L' : Ledger} {v : Value}

theorem mono (h : v.Recorded L) (hle : L.Le L') : v.Recorded L' := by
  induction h with
  | constant hv => exact .constant hv
  | symbol hx => exact .symbol (hle.names ▸ hx)
  | list hentry _ ih => exact .list (hle.entry _ _ hentry) ih
  | closure hentry hnodup _ ih => exact .closure (hle.entry _ _ hentry) hnodup ih
  | lambda hentry hnodup _ _ ihparams ihbody =>
      exact .lambda (hle.entry _ _ hentry) hnodup ihparams ihbody

theorem all_mono {vs : List Value} (h : ∀ v ∈ vs, v.Recorded L) (hle : L.Le L') :
    ∀ v ∈ vs, v.Recorded L' :=
  fun v hv => (h v hv).mono hle

theorem items {i : Identity} {items : List Value} (h : Recorded L (.list i items)) :
    ∀ v ∈ items, v.Recorded L := by
  cases h with
  | constant hc => cases hc
  | list _ hitems => exact hitems

theorem keyword (k : Keyword) : Recorded L (.symbol k.name) :=
  .symbol (L.keyword k)

end Value.Recorded

theorem Value.hereditary_recorded (L : Ledger) : Value.Hereditary (·.Recorded L) where
  constant := .constant
  item h := h.items

/-! ## Making values -/

/-- A computation that takes identities gives each of them to one thing. -/
def Fresh.Makes {α : Type} (x : Fresh α) (L : Ledger) (Q : Ledger → α → Prop) : Prop :=
  ∀ next, L.Below next → ∃ L', L.Le L' ∧ L'.Below (x next).2 ∧ Q L' (x next).1

namespace Fresh.Makes

variable {α β : Type} {L : Ledger} {Q : Ledger → α → Prop} {R : Ledger → β → Prop}

theorem pure {a : α} (h : Q L a) : (Pure.pure a : Fresh α).Makes L Q :=
  fun _ hnext => ⟨L, .refl L, hnext, h⟩

theorem bind {x : Fresh α} {f : α → Fresh β} (hx : x.Makes L Q)
    (hf : ∀ L' a, L.Le L' → Q L' a → (f a).Makes L' R) : (x >>= f).Makes L R := by
  intro next hnext
  obtain ⟨L', hle, hbelow, ha⟩ := hx next hnext
  obtain ⟨L'', hle', hbelow', hb⟩ := hf L' _ hle ha _ hbelow
  exact ⟨L'', hle.trans hle', hbelow', hb⟩

theorem list {items : List Value} (h : ∀ v ∈ items, v.Recorded L) :
    (Fresh.list items).Makes L fun L' v => v.Recorded L' :=
  fun _ hnext => ⟨_, hnext.le_give, hnext.give,
    .list Ledger.give_entry (Value.Recorded.all_mono h hnext.le_give)⟩

/-- A list in front of which stands the name of a keyword. -/
theorem form (k : Keyword) {operands : List Value} (h : ∀ v ∈ operands, v.Recorded L) :
    (Fresh.list (.symbol k.name :: operands)).Makes L fun L' v => v.Recorded L' :=
  list (List.forall_mem_cons.2 ⟨.keyword k, h⟩)

theorem mapM {f : α → Fresh Value} {as : List α}
    (hf : ∀ a ∈ as, ∀ L', L.Le L' → (f a).Makes L' fun L'' v => v.Recorded L'') :
    (as.mapM f).Makes L fun L' vs => ∀ v ∈ vs, v.Recorded L' := by
  induction as generalizing L with
  | nil => exact pure (List.forall_mem_nil _)
  | cons a as ih =>
      obtain ⟨ha, has⟩ := List.forall_mem_cons.1 hf
      rw [List.mapM_cons]
      refine (ha L (.refl L)).bind fun L' v hle hv => ?_
      refine (ih fun a ha L'' hle' => has a ha L'' (hle.trans hle')).bind fun L'' vs hle' hvs => ?_
      exact pure (List.forall_mem_cons.2 ⟨hv.mono hle', hvs⟩)

theorem foldlM {f : Value → α → Fresh Value} {as : List α}
    (hf : ∀ a ∈ as, ∀ L' v, L.Le L' → v.Recorded L' →
      (f v a).Makes L' fun L'' v => v.Recorded L'')
    {v : Value} (hv : v.Recorded L) : (as.foldlM f v).Makes L fun L' v => v.Recorded L' := by
  induction as generalizing L v with
  | nil => exact pure hv
  | cons a as ih =>
      obtain ⟨ha, has⟩ := List.forall_mem_cons.1 hf
      rw [List.foldlM_cons]
      refine (ha L v (.refl L) hv).bind fun L' v' hle hv' => ?_
      exact ih (fun a ha L'' w hle' hw => has a ha L'' w (hle.trans hle') hw) hv'

end Fresh.Makes

theorem Form.single_makes {L : Ledger} {body : List Value} (h : ∀ e ∈ body, e.Recorded L) :
    (Form.single body).Makes L fun L' e => e.Recorded L' := by
  unfold Form.single
  split
  · exact .pure (h _ List.mem_cons_self)
  · exact .form .begin h

/-! ## Reading -/

/-- Every symbol in a datum has a name of some kind. -/
inductive Datum.Named (names : String → Prop) : Datum → Prop
  | int (n : Int64) : Named names (.int n)
  | float (x : Float) : Named names (.float x)
  | symbol {x : String} : names x → Named names (.symbol x)
  | list {items : List Datum} : (∀ d ∈ items, Named names d) → Named names (.list items)

mutual

/-- Whatever a text denotes, its value is made anew. -/
theorem Datum.toValue_makes {L : Ledger} : ∀ {d : Datum}, d.Named L.names →
    d.toValue.Makes L fun L' v => v.Recorded L'
  | .int _, _ => .pure (.constant rfl)
  | .float _, _ => .pure (.constant rfl)
  | .symbol _, .symbol hx => .pure (.symbol hx)
  | .list _, .list h => (Datum.toValues_makes h).bind fun _ _ _ hvs => .list hvs

theorem Datum.toValues_makes {L : Ledger} : ∀ {ds : List Datum}, (∀ d ∈ ds, d.Named L.names) →
    (Datum.toValues ds).Makes L fun L' vs => ∀ v ∈ vs, v.Recorded L'
  | [], _ => .pure (List.forall_mem_nil _)
  | d :: ds, h => by
      obtain ⟨hd, hds⟩ := List.forall_mem_cons.1 h
      refine (Datum.toValue_makes hd).bind fun L' v hle hv => ?_
      refine (Datum.toValues_makes (hle.names ▸ hds)).bind fun L'' vs hle' hvs => ?_
      exact .pure (List.forall_mem_cons.2 ⟨hv.mono hle', hvs⟩)

end

/-! ## Computations on a memory -/

/-- The values in an error. -/
def Error.values : Error → List Value
  | eval fault context => fault.shown ++ context.toList
  | type fault context => fault.shown ++ context.toList
  | _ => []

/-- An error as it arises: a refusal, or a name without a meaning. -/
inductive Error.Bare (p : Value → Prop) : Error → Prop
  | refusal {e} : e.Refusal p → Bare p e
  | unbound (x : String) : Bare p (.unbound x)

theorem Error.Bare.values {p : Value → Prop} {e : Error} (h : e.Bare p) :
    ∀ v ∈ e.values, p v := by
  cases h with
  | unbound x => exact List.forall_mem_nil _
  | refusal h =>
      cases h with
      | eval hv => exact List.forall_mem_append.2 ⟨hv, List.forall_mem_nil _⟩
      | type hv => exact List.forall_mem_append.2 ⟨hv, List.forall_mem_nil _⟩
      | arity => exact List.forall_mem_nil _

variable {σ ρ α β : Type}

/-- All that names are bound to is recorded, and what is left of the supply is new. -/
structure Memory.Recorded (holds : σ → Value → Prop) (L : Ledger) (m : Memory σ) : Prop where
  supply : L.Below m.supply
  bound : ∀ v, holds m.bound v → v.Recorded L

theorem Memory.Recorded.grow {holds : σ → Value → Prop} {L L' : Ledger} {m : Memory σ}
    (h : m.Recorded holds L) (hle : L.Le L') {k : Identity} (hk : L'.Below k) :
    (⟨k, m.bound⟩ : Memory σ).Recorded holds L' :=
  ⟨hk, fun v hv => (h.bound v hv).mono hle⟩

namespace Eval

/-- How a computation may end. -/
inductive Ends (holds : σ → Value → Prop) (L : Ledger) (Q : Ledger → α → Prop) :
    Except Error α × Memory σ → Prop
  | ok {L' a m} : L.Le L' → m.Recorded holds L' → Q L' a → Ends holds L Q (.ok a, m)
  | error {L' e m} : L.Le L' → m.Recorded holds L' → e.Bare (·.Recorded L') →
      Ends holds L Q (.error e, m)

/-- A computation that brings no values of its own. -/
def Keeps (holds : σ → Value → Prop) (L : Ledger) (x : Eval σ α) (Q : Ledger → α → Prop) : Prop :=
  ∀ m, m.Recorded holds L → Ends holds L Q (runFrom m x)

namespace Keeps

variable {holds : σ → Value → Prop} {L : Ledger} {Q : Ledger → α → Prop} {R : Ledger → β → Prop}

theorem pure {a : α} (h : Q L a) : Keeps holds L (Pure.pure a : Eval σ α) Q :=
  fun _ hm => .ok (.refl L) hm h

theorem throw {e : Error} (h : e.Bare (·.Recorded L)) :
    Keeps holds L (MonadExcept.throw e : Eval σ α) Q :=
  fun _ hm => .error (.refl L) hm h

theorem bind {x : Eval σ α} {f : α → Eval σ β} (hx : Keeps holds L x Q)
    (hf : ∀ L' a, L.Le L' → Q L' a → Keeps holds L' (f a) R) : Keeps holds L (x >>= f) R := by
  intro m hm
  have hends := hx m hm
  rw [runFrom_bind]
  generalize runFrom m x = r at hends
  cases hends with
  | error hle hm' he => exact .error hle hm' he
  | ok hle hm' ha =>
      have hends' := hf _ _ hle ha _ hm'
      dsimp only
      generalize runFrom _ (f _) = r' at hends'
      cases hends' with
      | error hle' hm'' he => exact .error (hle.trans hle') hm'' he
      | ok hle' hm'' hb => exact .ok (hle.trans hle') hm'' hb

theorem supply {x : Fresh α} (hx : x.Makes L Q) : Keeps holds L (Eval.supply x) Q := by
  intro m hm
  obtain ⟨L', hle, hbelow, ha⟩ := hx m.supply hm.supply
  rw [runFrom_supply]
  exact .ok hle (hm.grow hle hbelow) ha

theorem ofExcept {P : α → Prop} {r : Except Error α} (hr : Except.Yields (·.Recorded L) P r) :
    Keeps holds L (Eval.ofExcept r) fun _ a => P a := by
  cases hr with
  | ok ha => exact pure ha
  | error he => exact throw (.refusal he)

theorem list {items : List Value} (h : ∀ v ∈ items, v.Recorded L) :
    Keeps holds L (Eval.list items) fun L' v => v.Recorded L' :=
  supply (.list h)

/-- A change that puts one value in. -/
theorem rebind {change : σ → σ} {v : Value} (hv : v.Recorded L)
    (h : ∀ b u, holds (change b) u → u = v ∨ holds b u) :
    Keeps holds L (Eval.rebind change) fun _ _ => True := by
  intro m hm
  rw [runFrom_rebind]
  refine .ok (.refl L) ⟨hm.supply, fun u hu => ?_⟩ trivial
  rcases h m.bound u hu with rfl | hu
  · exact hv
  · exact hm.bound u hu

end Keeps

end Eval

/-! ## Ways of binding names -/

/-- A way of binding names that brings no values of its own. What names are bound
to is whatever `holds` says. -/
structure Scoping.Keeping (S : Scoping σ ρ) (holds : σ → Value → Prop) : Prop where
  find? : ∀ {b env x v}, S.find? b env x = some v → v.isConstant = true ∨ holds b v
  define : ∀ {b env x v u}, holds (S.define b env x v) u → u = v ∨ holds b u
  overwrite : ∀ {b env x v u}, holds (S.overwrite b env x v) u → u = v ∨ holds b u
  close : ∀ {L : Ledger} {env params body}, (Form.symbols params).Nodup →
    (∀ v ∈ params, v.Recorded L) → body.Recorded L →
    Except.Yields (·.Recorded L)
      (fun make => ∀ L' i, L.Le L' → L'.entry i = some (make i) → (make i).Recorded L')
      (S.close env params body)
  expand : ∀ {L : Ledger} {pairs body}, (∀ pair ∈ pairs, pair.1.Recorded L ∧ pair.2.Recorded L) →
    (∀ e ∈ body, e.Recorded L) →
    Eval.Keeps holds L (S.expand pairs body) fun L' es => ∀ e ∈ es, e.Recorded L'
  enter : ∀ {L : Ledger} {f args}, f.Recorded L → (∀ a ∈ args, a.Recorded L) →
    Eval.Keeps holds L (S.enter f args) fun L' called => called.2.Recorded L'
  leave : ∀ {L : Ledger} {body e}, body.Recorded L → (∀ v ∈ e.values, v.Recorded L) →
    ∀ v ∈ (S.leave body e).values, v.Recorded L

namespace Scoping.Keeping

variable {S : Scoping σ ρ} {holds : σ → Value → Prop} {L : Ledger} {env : ρ}

theorem resolve (hS : S.Keeping holds) (x : String) :
    Eval.Keeps holds L (S.resolve env x) fun L' v => v.Recorded L' := by
  intro m hm
  rw [Scoping.runFrom_resolve]
  split
  · next v hv =>
    refine .ok (.refl L) hm ?_
    rcases hS.find? hv with hv | hv
    · exact .constant hv
    · exact hm.bound v hv
  · exact .error (.refl L) hm (.unbound x)

theorem assign (hS : S.Keeping holds) (x : String) {v : Value} (hv : v.Recorded L) :
    Eval.Keeps holds L (S.assign env x v) fun _ _ => True :=
  (hS.resolve x).bind fun _ _ hle _ => .rebind (hv.mono hle) fun _ _ => hS.overwrite

/-- A procedure takes the next identity. -/
theorem procedure (hS : S.Keeping holds) {params : List Value} {body : Value}
    (hnodup : (Form.symbols params).Nodup) (hparams : ∀ v ∈ params, v.Recorded L)
    (hbody : body.Recorded L) :
    Eval.Keeps holds L (S.procedure env params body) fun L' v => v.Recorded L' := by
  refine (Eval.Keeps.ofExcept (hS.close hnodup hparams hbody)).bind fun L' make hle hmake => ?_
  intro m hm
  have hgiven : L'.Le (L'.give m.supply (make m.supply)) := hm.supply.le_give
  exact .ok hgiven (hm.grow hgiven hm.supply.give)
    (hmake _ _ (hle.trans hgiven) Ledger.give_entry)

end Scoping.Keeping

end TwinScheme

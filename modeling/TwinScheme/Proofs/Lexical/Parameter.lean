import TwinScheme.Proofs.Lexical.Footprint
import TwinScheme.Proofs.Lexical.Parallel

/-!
# The name of a parameter does not matter

Take an expression, somewhere in it a `lambda` that may come to be evaluated,
one of its parameters, and a name that occurs in neither its parameters nor its
body; and give the parameter that name, there and wherever the body has it
outside quotations. Evaluating the new expression does what evaluating the old
one does, wherever it is evaluated: the results are equal but for the names that
closures hold, the errors are of one kind, and so are the frames, where only
calls inside the renamed `lambda` may have bound other names
(`evaluate_renameParameter`).

Nothing is asked of the expression beyond that. Binders inside may have the name
of the parameter as well, and are renamed with it; closures that were made
elsewhere may use either name, and do so while the renamed frame is alive.

The two expressions are taken with the same identities, and are evaluated in
memories that stay in step, so that what corresponds has the same identity and
the same frame number on both sides.
-/

namespace TwinScheme

open List (Forall₂)

/-! ## Renaming in an expression -/

namespace Value

mutual

/-- The names in an expression, quotations included. -/
def names : Value → List String
  | .symbol name => [name]
  | .list _ items => namesAll items
  | _ => []

def namesAll : List Value → List String
  | [] => []
  | v :: vs => v.names ++ namesAll vs

end

/-- Whether a list is headed by `quote`. -/
def headsQuotation : List Value → Bool
  | .symbol name :: _ => name == Keyword.quote.name
  | _ => false

mutual

/-- One name for another, wherever it stands outside quotations. -/
def rename (x y : String) : Value → Value
  | .symbol name => .symbol (if name = x then y else name)
  | .list id items => .list id (if headsQuotation items then items else renameAll x y items)
  | v => v

def renameAll (x y : String) : List Value → List Value
  | [] => []
  | v :: vs => rename x y v :: renameAll x y vs

end

/-- The name `quote` heads quotations and does nothing else: it stands in no row of
binders, pair or clause, and is no operand. -/
inductive Tidy : Position → Value → Prop
  | value {p v} : v.isSelfEvaluating = true → Tidy p v
  | symbol {p name} : name ≠ Keyword.quote.name → Tidy p (.symbol name)
  | quotation {id operands} : Tidy .expression (Keyword.quote.form id operands)
  | empty {id} : Tidy .expression (.list id [])
  | combination {id head rest} : Form.keyword? head = none → Tidy .expression head →
      (∀ e ∈ rest, Tidy .expression e) → Tidy .expression (.list id (head :: rest))
  | bare {k id} : k ≠ .quote → Tidy .expression (Keyword.form k id [])
  | form {k id a as} : k ≠ .quote → Tidy (Keyword.first k) a →
      (∀ e ∈ as, Tidy (Keyword.others k) e) → Tidy .expression (Keyword.form k id (a :: as))
  | parts {id items} : (∀ e ∈ items, Tidy .expression e) → Tidy .parts (.list id items)
  | rows {id items} : (∀ e ∈ items, Tidy .parts e) → Tidy .rows (.list id items)

/-- A parameter of one `lambda` renamed, where that `lambda` is the expression or
stands in it where it may be evaluated. -/
inductive RenamesParameter (x y : String) : Value → Value → Prop
  | here {i j body} {params : List String} :
      x ∈ params → y ∉ params → y ∉ names body → Tidy .expression body →
      RenamesParameter x y
        (Keyword.lambda.form i [.list j (params.map .symbol), body])
        (Keyword.lambda.form i
          [.list j ((params.map fun a => if a = x then y else a).map .symbol), rename x y body])
  /-- The operator or an operand of a combination. -/
  | combination {i e e' before after} :
      (∀ head ∈ before.head?, Form.keyword? head = none) → RenamesParameter x y e e' →
      RenamesParameter x y (.list i (before ++ e :: after)) (.list i (before ++ e' :: after))
  /-- An operand of `if` or `begin`. -/
  | operand {i k e e' before after} : k = .ite ∨ k = .begin → RenamesParameter x y e e' →
      RenamesParameter x y (Keyword.form k i (before ++ e :: after))
        (Keyword.form k i (before ++ e' :: after))
  /-- What is defined or assigned, or stands in the body of a `define`, a `let` or a
  `lambda`. -/
  | body {i k first e e' before after} :
      k = .define ∨ k = .set ∨ k = .letForm ∨ k = .lambda → RenamesParameter x y e e' →
      RenamesParameter x y (Keyword.form k i (first :: (before ++ e :: after)))
        (Keyword.form k i (first :: (before ++ e' :: after)))
  /-- What `let` binds a name to. -/
  | bound {i j l binder e e' before after body} : RenamesParameter x y e e' →
      RenamesParameter x y
        (Keyword.letForm.form i (.list j (before ++ .list l [binder, e] :: after) :: body))
        (Keyword.letForm.form i (.list j (before ++ .list l [binder, e'] :: after) :: body))
  /-- The test of a clause of `cond`, or an expression behind it. -/
  | clause {i j e e' before after first last} : RenamesParameter x y e e' →
      RenamesParameter x y
        (Keyword.cond.form i (before ++ .list j (first ++ e :: last) :: after))
        (Keyword.cond.form i (before ++ .list j (first ++ e' :: last) :: after))

/-- Equal but for the names that closures hold. -/
inductive EqualBut (r : String → String) : Value → Value → Prop
  | atom {v} : v.isAtomic = true → EqualBut r v v
  | list {id items items'} : Forall₂ (EqualBut r) items items' →
      EqualBut r (.list id items) (.list id items')
  | closure {id params params' body body' env} : params' = params ∨ params' = params.map r →
      body.Like r body' → EqualBut r (.closure id params body env) (.closure id params' body' env)
  | lambda (id params body) : EqualBut r (.lambda id params body) (.lambda id params body)

end Value

/-- Results that are equal but for names in closures, or errors of one kind. -/
inductive Except.EqualBut (r : String → String) : Except Error Value → Except Error Value → Prop
  | ok {v v'} : v.EqualBut r v' → EqualBut r (.ok v) (.ok v')
  | error {e e'} : e.Akin r e' → EqualBut r (.error e) (.error e')

/-- Memories of which the frames from some number on may have other names. -/
structure Memory.EqualBut (r : String → String) (start : Nat) (m n : Memory Heap) : Prop where
  supply : m.supply = n.supply
  size : m.bound.frames.size = n.bound.frames.size
  frame : ∀ i, ∃ ρ : String → String, (ρ = id ∨ start ≤ i ∧ ρ = r) ∧
    ∀ a, Option.Rel (Value.EqualBut r) ((m.bound.frame i).get? a) ((n.bound.frame i).get? (ρ a))

/-! ## Renaming gives corresponding code -/

/-- One name exchanged for another. -/
def Renaming.exchange {x y : String} (hx : Plain x) (hy : Plain y) : Renaming where
  names := Equiv.swap x y
  parameter := x
  keyword k := Equiv.swap_apply_of_ne_of_ne (hx.ne_keyword k).symm (hy.ne_keyword k).symm
  otherwise := Equiv.swap_apply_of_ne_of_ne hx.not_else.symm hy.not_else.symm

section

variable {x y : String}

/-- To replace a name is to exchange it for one that does not occur. -/
theorem replaced_eq_swap {a : String} (ha : a ≠ y) :
    (if a = x then y else a) = Equiv.swap x y a := by
  rw [Equiv.swap_apply_def, if_neg ha]

theorem replaced_map_eq_swap {params : List String} (hy : y ∉ params) :
    (params.map fun a => if a = x then y else a) = params.map (Equiv.swap x y) :=
  List.map_congr_left fun _ ha => replaced_eq_swap fun hay => hy (hay ▸ ha)

namespace Value

theorem mem_namesAll {a : String} {vs : List Value} :
    a ∈ namesAll vs ↔ ∃ v ∈ vs, a ∈ v.names := by
  induction vs with
  | nil => simp [namesAll]
  | cons v vs ih => simp [namesAll, ih]

theorem renameAll_eq_map (vs : List Value) : renameAll x y vs = vs.map (rename x y) := by
  induction vs with
  | nil => rfl
  | cons v vs ih => rw [renameAll, ih, List.map_cons]

theorem rename_list {id : Identity} {items : List Value} (h : headsQuotation items = false) :
    rename x y (.list id items) = .list id (items.map (rename x y)) := by
  rw [rename, h, renameAll_eq_map]
  rfl

theorem rename_of_isSelfEvaluating {v : Value} (h : v.isSelfEvaluating = true) :
    rename x y v = v := by
  cases v with
  | symbol | list => cases h
  | _ => rfl

theorem headsQuotation_form {k : Keyword} (hk : k ≠ .quote) (operands : List Value) :
    headsQuotation (.symbol k.name :: operands) = false := by
  cases k with
  | quote => exact absurd rfl hk
  | _ => rfl

theorem headsQuotation_of_keyword? {head : Value} (h : Form.keyword? head = none)
    (rest : List Value) : headsQuotation (head :: rest) = false := by
  cases head with
  | symbol name =>
      show (name == Keyword.quote.name) = false
      refine beq_eq_false_iff_ne.2 ?_
      rintro rfl
      rw [Form.keyword?_name] at h
      cases h
  | _ => rfl

theorem rename_form (hx : Plain x) {k : Keyword} (hk : k ≠ .quote) (id : Identity)
    (operands : List Value) :
    rename x y (k.form id operands) = k.form id (operands.map (rename x y)) := by
  rw [Keyword.form, rename_list (headsQuotation_form hk operands), List.map_cons, rename,
    if_neg (hx.ne_keyword k).symm]
  rfl

theorem headsQuotation_of_tidy {p : Position} {items : List Value} (h : ∀ e ∈ items, Tidy p e) :
    headsQuotation items = false := by
  cases items with
  | nil => rfl
  | cons head rest =>
      cases head with
      | symbol name =>
          refine beq_eq_false_iff_ne.2 ?_
          cases h _ List.mem_cons_self with
          | symbol hname => exact hname
          | value hself => cases hself
      | _ => rfl

end Value

end

section

variable {x y : String} {hx : Plain x} {hy : Plain y} {W : Correspondence}

open Renaming

theorem exchange_allows {a : String} (ha : a ≠ y) : (exchange hx hy).Allows .inside a := by
  by_cases hax : a = x
  · exact .inl hax
  · exact .inr (Equiv.swap_apply_of_ne_of_ne hax ha)

theorem Matches.items {i j : Identity} {items items' : List Value}
    (h : Matches W (.list i items) (.list j items')) : Forall₂ (Matches W) items items' := by
  cases h with
  | list _ hitems => exact hitems
  | created hcalls => cases (Correspondence.created _ hcalls).1

namespace Value

/-- Expressions beside themselves with a name replaced. -/
theorem renamed_codes {p : Position} {es : List Value}
    (h : ∀ e ∈ es, y ∉ e.names → Matches W e e →
      (exchange hx hy).Code W .inside p e (rename x y e))
    (hfresh : y ∉ namesAll es) (hself : Forall₂ (Matches W) es es) :
    (exchange hx hy).Codes W .inside p es (es.map (rename x y)) := by
  rw [codes_iff, List.forall₂_map_right_iff, List.forall₂_same]
  intro e he
  exact h e he (fun hy => hfresh (mem_namesAll.2 ⟨e, he, hy⟩)) (List.forall₂_same.1 hself e he)

/-- A tidy expression beside itself with a name replaced. -/
theorem Tidy.code {p : Position} {v : Value} (h : v.Tidy p) (hfresh : y ∉ v.names)
    (hself : Matches W v v) : (exchange hx hy).Code W .inside p v (rename x y v) := by
  induction h with
  | value hv =>
      rw [rename_of_isSelfEvaluating hv]
      exact .value hv hself
  | @symbol p name _ =>
      have hname : name ≠ y := fun heq => hfresh (heq ▸ List.mem_cons_self)
      rw [rename, replaced_eq_swap hname]
      exact .symbol (exchange_allows hname)
  | quotation => exact .quotation (List.forall₂_cons.1 hself.items).2
  | empty => exact .empty
  | combination hk _ _ ihhead ihrest =>
      rw [rename_list (headsQuotation_of_keyword? hk _)]
      rw [names, namesAll, List.mem_append, not_or] at hfresh
      obtain ⟨hhead, hrest⟩ := List.forall₂_cons.1 hself.items
      exact .combination hk (ihhead hfresh.1 hhead) (renamed_codes ihrest hfresh.2 hrest)
  | bare hk =>
      rw [rename_form hx hk]
      exact .bare hk
  | form hk _ _ iha ihas =>
      rw [rename_form hx hk]
      rw [Keyword.form, names, namesAll, namesAll, List.mem_append, List.mem_append, not_or,
        not_or] at hfresh
      obtain ⟨ha, has⟩ := List.forall₂_cons.1 (List.forall₂_cons.1 hself.items).2
      exact .form hk (iha hfresh.2.1 ha) (renamed_codes ihas hfresh.2.2 has)
  | parts hitems ih =>
      rw [rename_list (headsQuotation_of_tidy hitems)]
      exact .parts (renamed_codes ih hfresh hself.items)
  | rows hitems ih =>
      rw [rename_list (headsQuotation_of_tidy hitems)]
      exact .rows (renamed_codes ih hfresh hself.items)

/-- A row with one item in the middle that is not the same on both sides. -/
theorem middle_codes {R : Renaming} {p : Position} {e e' : Value} {before after : List Value}
    (he : R.Code W .outside p e e') (hself : Forall₂ (Matches W) (before ++ e :: after)
      (before ++ e :: after)) :
    R.Codes W .outside p (before ++ e :: after) (before ++ e' :: after) := by
  have hall := List.forall₂_same.1 hself
  have hsame : ∀ v ∈ before ++ e :: after, R.Code W .outside p v v :=
    fun v hv => Code.of_matches v v (hall v hv) p
  rw [codes_iff]
  refine List.rel_append (List.forall₂_same.2 fun v hv => ?_) (.cons he (List.forall₂_same.2 ?_))
  · exact hsame v (List.mem_append_left _ hv)
  · exact fun v hv => hsame v (List.mem_append_right _ (List.mem_cons_of_mem _ hv))

/-- A form whose operands all stand in places of one kind. -/
theorem uniform_code {R : Renaming} {p : Position} {k : Keyword} {i j : Identity}
    {as as' : List Value} (hk : k ≠ .quote) (hfirst : k.first = p) (hothers : k.others = p)
    (h : R.Codes W .outside p as as') :
    R.Code W .outside .expression (k.form i as) (k.form j as') := by
  cases h with
  | nil => exact .bare hk
  | cons ha has => exact .form hk (hfirst ▸ ha) (hothers ▸ has)

theorem RenamesParameter.keyword?_eq {e e' : Value} (h : RenamesParameter x y e e') :
    Form.keyword? e = none := by
  cases h <;> rfl

/-- An expression beside itself with a parameter renamed. -/
theorem RenamesParameter.code {e e' : Value} (h : RenamesParameter x y e e')
    (hself : Matches W e e) : (exchange hx hy).Code W .outside .expression e e' := by
  have hmiddle : ∀ {e : Value} {before after : List Value},
      Forall₂ (Matches W) (before ++ e :: after) (before ++ e :: after) → Matches W e e :=
    fun h => List.forall₂_same.1 h _ (List.mem_append_right _ List.mem_cons_self)
  have hsame : ∀ {es : List Value} (p : Position), Forall₂ (Matches W) es es →
      (exchange hx hy).Codes W .outside p es es :=
    fun p h => Code.of_matchesAll _ _ h p
  induction h with
  | here hmem hparams hbody htidy =>
      obtain ⟨-, hself⟩ := List.forall₂_cons.1 hself.items
      obtain ⟨-, hself⟩ := List.forall₂_cons.1 hself
      rw [replaced_map_eq_swap hparams]
      exact .here hmem (fun a ha => exchange_allows fun hay => hparams (hay ▸ ha))
        (htidy.code hbody (List.forall₂_cons.1 hself).1)
  | @combination i e e' before after hk h ih =>
      have hcodes := middle_codes (ih (hmiddle hself.items)) hself.items
      cases before with
      | nil =>
          cases hcodes with
          | cons hhead hrest => exact .combination h.keyword?_eq hhead hrest
      | cons head before =>
          cases hcodes with
          | cons hhead hrest => exact .combination (hk head rfl) hhead hrest
  | operand hk _ ih =>
      obtain ⟨-, hself⟩ := List.forall₂_cons.1 hself.items
      have hcodes := middle_codes (ih (hmiddle hself)) hself
      rcases hk with rfl | rfl
      · exact uniform_code nofun rfl rfl hcodes
      · exact uniform_code nofun rfl rfl hcodes
  | @body i k first e e' before after hk _ ih =>
      obtain ⟨-, hself⟩ := List.forall₂_cons.1 hself.items
      obtain ⟨hfirst, hself⟩ := List.forall₂_cons.1 hself
      have hcodes := middle_codes (ih (hmiddle hself)) hself
      have hfirst := Code.of_matches (R := exchange hx hy) first first hfirst k.first
      rcases hk with rfl | rfl | rfl | rfl
      · exact .form nofun hfirst hcodes
      · exact .form nofun hfirst hcodes
      · exact .form nofun hfirst hcodes
      · exact .form nofun hfirst hcodes
  | bound _ ih =>
      obtain ⟨-, hself⟩ := List.forall₂_cons.1 hself.items
      obtain ⟨hpairs, hbody⟩ := List.forall₂_cons.1 hself
      have hpair := (hmiddle hpairs.items).items
      obtain ⟨hbinder, he⟩ := List.forall₂_cons.1 hpair
      have hcode := ih (List.forall₂_cons.1 he).1
      refine .form nofun (.rows (middle_codes (.parts ?_) hpairs.items)) (hsame _ hbody)
      exact .cons (Code.of_matches _ _ hbinder _) (.cons hcode .nil)
  | clause _ ih =>
      obtain ⟨-, hself⟩ := List.forall₂_cons.1 hself.items
      have hclause := (hmiddle hself).items
      have hcodes := middle_codes (ih (hmiddle hclause)) hclause
      exact uniform_code nofun rfl rfl (middle_codes (.parts hcodes) hself)

end Value

end

/-! ## Runs in step -/

theorem Environment.eq_of_frames {env env' : Environment} (h : env.frames = env'.frames) :
    env = env' := by
  cases env
  cases env'
  cases h
  rfl

namespace Renaming

/-- Runs from one memory that take identities and frames in step. -/
def inStep (R : Renaming) (m : Memory Heap) : R.Terms where
  error := Error.Akin R.names
  error_refl := .refl
  raised h := h.akin
  within h _ := h.within _ _
  sync := True
  start := m
  own _ := True

/-- Every frame that there is beside itself. -/
def Frames.diagonal (size : Nat) : Frames :=
  fun i => if i < size then some (.plain, i) else none

theorem Frames.diagonal_eq_some_iff {size i j : Nat} {k : Kind} :
    Frames.diagonal size i = some (k, j) ↔ i < size ∧ k = .plain ∧ j = i := by
  unfold Frames.diagonal
  split
  · next hlt => simp [hlt, eq_comm]
  · next hlt => simp [hlt]

theorem Chains.diagonal {size : Nat} {frames : List Nat} (h : ∀ i ∈ frames, i < size) :
    Chains (.diagonal size) .outside frames frames := by
  induction frames with
  | nil => exact .nil
  | cons i frames ih =>
      obtain ⟨hi, hframes⟩ := List.forall_mem_cons.1 h
      exact .plain (Frames.diagonal_eq_some_iff.2 ⟨hi, rfl, rfl⟩) (ih hframes)

theorem Chains.eq {F : Frames} (hF : ∀ {i k j}, F i = some (k, j) → i = j) {μ : Mode}
    {is js : List Nat} (h : Chains F μ is js) : is = js := by
  induction h with
  | nil => rfl
  | plain hi _ ih | base hi _ ih | inner hi _ ih => rw [hF hi, ih]

variable {R : Renaming}

/-- A procedure does the same as itself. -/
theorem Sound.diagonal {h : Heap} {f : Value} (hf : f.isCreated = true)
    (hclosures : f.Closures fun _ _ env => h.Has env) :
    R.Sound (.diagonal fun _ _ env => h.Has env) (.diagonal h.frames.size) f f := by
  cases f with
  | closure i params body env =>
      obtain ⟨henv, hbody⟩ := Value.Closures.closure_iff.1 hclosures
      have hcode := Code.of_matches (R := R) body body (Matches.of_closures body hbody) .expression
      have hsound : R.Sound (.diagonal fun _ _ env => h.Has env) (.diagonal h.frames.size)
          (.closure i params body env) (.closure i (params.map (R.rename .outside)) body env) :=
        .of_mode (Chains.diagonal henv) (fun _ _ => trivial) hcode
      rwa [rename, List.map_id] at hsound
  | lambda => exact .lambda
  | _ => cases hf

/-- Everything that there is beside itself. -/
def World.diagonal (R : Renaming) (h : Heap) : R.World where
  pairs := .diagonal fun _ _ env => h.Has env
  frames := .diagonal h.frames.size
  sound := by
    rintro f _ ⟨rfl, hf, hclosures⟩
    exact .diagonal hf hclosures

theorem Linked.diagonal {m : Memory Heap} (hm : m.bound.Closed) :
    Linked (R.inStep m) (.diagonal R m.bound) m m where
  tags _ := .inl trivial
  within hi := by
    obtain ⟨hlt, -, rfl⟩ := Frames.diagonal_eq_some_iff.1 hi
    exact ⟨hlt, hlt⟩
  unique hi hi' := (Frames.diagonal_eq_some_iff.1 hi).2.2.symm.trans
    (Frames.diagonal_eq_some_iff.1 hi').2.2
  bindings {i k j} hi a := by
    obtain ⟨-, rfl, rfl⟩ := Frames.diagonal_eq_some_iff.1 hi
    show Option.Rel _ ((m.bound.frame j).get? a) ((m.bound.frame j).get? a)
    cases hv : (m.bound.frame j).get? a with
    | none => exact .none
    | some v => exact .some (Matches.of_closures v (hm j a v hv))
  parameter hi := by cases (Frames.diagonal_eq_some_iff.1 hi).2.1
  inStep _ := {
    supply := rfl
    size := rfl
    tags := id
    frames := fun hi => (Frames.diagonal_eq_some_iff.1 hi).2.2.symm
    total := fun i hi => ⟨.plain, Frames.diagonal_eq_some_iff.2 ⟨hi, rfl, rfl⟩⟩ }
  supply := Nat.le_refl _
  size := Nat.le_refl _
  owned _ := trivial
  fresh _ := trivial
  kept h := absurd trivial h

/-! ## What runs in step come to -/

section

variable {w : R.World} {m n : Memory Heap}

mutual

/-- What corresponds is equal but for names in closures. -/
theorem equalBut (hw : InStep w m n) : ∀ a b : Value, Matches w.pairs a b →
    a.EqualBut R.names b
  | _, _, .int n => .atom rfl
  | _, _, .float x => .atom rfl
  | _, _, .symbol name => .atom rfl
  | _, _, .bool b => .atom rfl
  | _, _, .primitive p => .atom rfl
  | _, _, .unspecified => .atom rfl
  | .list _ items, .list _ items', .list hids hitems => by
      cases hw.tags hids
      exact .list (equalBut_all hw items items' hitems)
  | f, g, .created hcalls => by
      obtain ⟨t, u, ht, hu, htu⟩ := w.pairs.tagged hcalls
      obtain rfl := hw.tags htu
      cases w.sound hcalls with
      | @closure i j body body' env env' params k hchains _ _ hbody =>
          obtain rfl := Environment.eq_of_frames (hchains.eq hw.frames)
          cases ht
          cases hu
          refine .closure ?_ (hbody.like World.like)
          cases k with
          | plain => exact .inl (List.map_id params)
          | base | inner => exact .inr rfl
      | lambda =>
          cases ht
          cases hu
          exact .lambda _ _ _

theorem equalBut_all (hw : InStep w m n) : ∀ as bs : List Value, Forall₂ (Matches w.pairs) as bs →
    Forall₂ (Value.EqualBut R.names) as bs
  | [], [], .nil => .nil
  | a :: as, b :: bs, .cons hab habs => .cons (equalBut hw a b hab) (equalBut_all hw as bs habs)

end

theorem Linked.equalBut {start : Memory Heap} (h : Linked (R.inStep start) w m n)
    (hle : (World.diagonal R start.bound).Le w) :
    Memory.EqualBut R.names start.bound.frames.size m n := by
  have hw := h.inStep trivial
  refine ⟨hw.supply, hw.size, fun i => ?_⟩
  by_cases hi : i < m.bound.frames.size
  · obtain ⟨k, hk⟩ := hw.total i hi
    refine ⟨R.rename k.mode, ?_, fun a => ?_⟩
    · by_cases hold : i < start.bound.frames.size
      · have hplain := hle.frames i _ (Frames.diagonal_eq_some_iff.2 ⟨hold, rfl, rfl⟩)
        cases hk.symm.trans hplain
        exact .inl rfl
      · cases k with
        | plain => exact .inl rfl
        | base | inner => exact .inr ⟨Nat.le_of_not_lt hold, rfl⟩
    · have hrel := h.bindings hk a
      generalize (m.bound.frame i).get? a = o at hrel
      generalize (n.bound.frame i).get? (R.rename k.mode a) = o' at hrel
      cases hrel with
      | none => exact .none
      | some hab => exact .some (Renaming.equalBut hw _ _ hab)
  · refine ⟨id, .inl rfl, fun a => ?_⟩
    rw [Heap.frame_of_size_le (Nat.le_of_not_lt hi),
      Heap.frame_of_size_le (hw.size ▸ Nat.le_of_not_lt hi)]
    exact .none

theorem ends_equalBut {start : Memory Heap} {r r' : Except Error Value × Memory Heap}
    (h : (R.inStep start).lockstep.Ends (World.diagonal R start.bound)
      (R.inStep start).lockstep.value r r') :
    Except.EqualBut R.names r.1 r'.1 ∧
      Memory.EqualBut R.names start.bound.frames.size r.2 r'.2 := by
  cases h with
  | ok hle hlinked hab =>
      exact ⟨.ok (equalBut (hlinked.inStep trivial) _ _ hab), hlinked.equalBut hle⟩
  | error hle hlinked he => exact ⟨.error he, hlinked.equalBut hle⟩
  | excused he => exact he.elim

end

end Renaming

/-- Evaluating an expression in which a parameter is renamed does what evaluating
the expression does, but for the names that closures and the frames of calls
hold. -/
theorem Scoping.evaluate_renameParameter {x y : String} (hx : Plain x) (hy : Plain y)
    {expr expr' : Value} (h : expr.RenamesParameter x y expr') (limit : Nat) {env : Environment}
    {m : Memory Heap} (hm : m.bound.Closed) (henv : m.bound.Has env)
    (hexpr : expr.Closures fun _ _ env => m.bound.Has env) :
    let r := Eval.runFrom m (Scoping.lexical.evaluate limit env expr)
    let r' := Eval.runFrom m (Scoping.lexical.evaluate limit env expr')
    Except.EqualBut (Equiv.swap x y) r.1 r'.1 ∧
      Memory.EqualBut (Equiv.swap x y) m.bound.frames.size r.2 r'.2 := by
  let R := Renaming.exchange hx hy
  have hcode : R.Code (Renaming.World.diagonal R m.bound).pairs .outside .expression expr expr' :=
    h.code (Matches.of_closures expr hexpr)
  have htracks : (R.inStep m).lockstep.Tracks (.diagonal R m.bound)
      (Scoping.lexical.evaluate limit env expr) (Scoping.lexical.evaluate limit env expr')
      (R.inStep m).lockstep.value :=
    Lockstep.eval_tracks Renaming.Terms.lockstep_lawful limit limit
      ⟨.outside, .diagonal henv, hcode⟩
  exact Renaming.ends_equalBut (htracks m m (.diagonal hm))

/-- `((lambda (x) (cons x '(x))) 1)`, with `z` for `x`, in a new session. -/
theorem Scoping.evaluate_renameParameter_cons :
    let call (x : String) : Datum := .list [.list [.symbol "lambda", .list [.symbol x],
      .list [.symbol "cons", .symbol x, .list [.symbol "quote", .list [.symbol "x"]]]], .int 1]
    let m : Memory Heap := ⟨6, Heap.empty.topLevel.2⟩
    let run (d : Datum) :=
      Eval.runFrom m (Scoping.lexical.evaluate 10 Heap.empty.topLevel.1 (d.toValue 0).1)
    Except.EqualBut (Equiv.swap "x" "z") (run (call "x")).1 (run (call "z")).1 ∧
      Memory.EqualBut (Equiv.swap "x" "z") 2 (run (call "x")).2 (run (call "z")).2 := by
  intro call m run
  have hcons : Form.keyword? (.symbol "cons") = none := by decide
  have hrenames : Value.RenamesParameter "x" "z" ((call "x").toValue 0).1
      ((call "z").toValue 0).1 := by
    refine @Value.RenamesParameter.combination _ _ 5 _ _ [] [.int 1] nofun
      (@Value.RenamesParameter.here _ _ 4 0 (.list 3 [.symbol "cons", .symbol "x",
        .list 2 [.symbol "quote", .list 1 [.symbol "x"]]]) ["x"] ?_ ?_ ?_ ?_)
    · exact List.mem_cons_self
    · decide
    · decide
    · refine .combination hcons (.symbol (by decide)) ?_
      simp only [List.forall_mem_cons]
      exact ⟨.symbol (by decide), .quotation, nofun⟩
  have henv : ∀ i ∈ Heap.empty.topLevel.1.frames, i < Heap.empty.topLevel.2.frames.size := by
    decide
  exact Scoping.evaluate_renameParameter ⟨by decide, by decide⟩ ⟨by decide, by decide⟩ hrenames 10
    Heap.topLevel_closed henv (Datum.toValue_closures (call "x") 0).1

end TwinScheme

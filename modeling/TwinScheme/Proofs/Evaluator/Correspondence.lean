import TwinScheme.Primitive.Run
import TwinScheme.Proofs.Evaluator.Bridge

/-!
# Values of two runs

Two runs hand out identities at their own pace, and what one run makes as a
closure the other may make as something else, so corresponding values are not
equal values. What has to agree is what a program can see: atoms, the shape of
lists, and which two things are the same thing. A `Correspondence` says which
identities belong together, one to one, and which created procedures do;
`Matches` extends it through lists.

What it buys is settled here as far as values are concerned: no question about
the kind of a value, and neither of the two equalities, tells corresponding
values apart. Identities enter through the equalities alone, and their being
paired one to one is what decides them.
-/

namespace TwinScheme

open List (Forall₂)

/-- The identity of a thing that has one, with the kind of thing it is. -/
inductive Value.Tag where
  | list (id : Identity)
  | closure (id : Identity)
  | lambda (id : Identity)
  deriving DecidableEq

namespace Value

def Tag.id : Tag → Identity
  | list id | closure id | lambda id => id

/-- What tells a value from its copies, if anything does. -/
def tag? : Value → Option Tag
  | .list id _ => some (.list id)
  | .closure id _ _ _ => some (.closure id)
  | .lambda id _ _ => some (.lambda id)
  | _ => none

/-- Whether a value is a procedure that a program created. -/
def isCreated : Value → Bool
  | closure .. | lambda .. => true
  | _ => false

theorem equal_of_isCreated {f g : Value} (hf : f.isCreated = true) (hg : g.isCreated = true) :
    f.equal g = decide (f.tag? = g.tag?) := by
  cases f <;> cases hf <;> cases g <;> cases hg <;> simp [equal, tag?, beq_eq_decide]

/-- The two equalities differ on lists only. -/
theorem identical_eq_equal {a b : Value} (h : a.isList = false ∨ b.isList = false) :
    a.identical b = a.equal b := by
  cases a <;> cases b <;> first | rfl | exact absurd h (by simp [isList])

end Value

/-- Errors of one kind and, where a program can tell, of one content. -/
inductive Error.Alike : Error → Error → Prop
  | read (fault : ReadFault) : Alike (.read fault) (.read fault)
  | eval (fault : EvalFault) (c c' : Option Value) : Alike (.eval fault c) (.eval fault c')
  | type (fault fault' : TypeFault) (c c' : Option Value) :
      Alike (.type fault c) (.type fault' c')
  | unbound (name : String) : Alike (.unbound name) (.unbound name)
  | arity (expected got : Nat) : Alike (.arity expected got) (.arity expected got)

theorem Error.Alike.refl (e : Error) : e.Alike e := by
  cases e with
  | read fault => exact .read fault
  | eval fault c => exact .eval fault c c
  | type fault c => exact .type fault fault c c
  | unbound name => exact .unbound name
  | arity expected got => exact .arity expected got

theorem Error.Alike.within_left {e f : Error} (h : e.Alike f) (expr : Value) :
    (e.within expr).Alike f := by
  cases h with
  | read fault => exact .read fault
  | eval fault c c' =>
      cases c with
      | none =>
          rw [Error.within]
          split <;> exact .eval fault _ _
      | some c => exact .eval fault _ _
  | type fault fault' c c' =>
      cases c with
      | none =>
          rw [Error.within]
          split <;> exact .type fault fault' _ _
      | some c => exact .type fault fault' _ _
  | unbound name => exact .unbound name
  | arity expected got => exact .arity expected got

/-- Which identities of two runs belong together, and which created
procedures. -/
structure Correspondence where
  tags : Value.Tag → Value.Tag → Prop
  unique : ∀ {t t' u u'}, tags t u → tags t' u' → (t = t' ↔ u = u')
  calls : Value → Value → Prop
  created : ∀ {f g}, calls f g → f.isCreated = true ∧ g.isCreated = true
  tagged : ∀ {f g}, calls f g → ∃ t u, f.tag? = some t ∧ g.tag? = some u ∧ tags t u

/-- Values that correspond. -/
inductive Matches (W : Correspondence) : Value → Value → Prop
  | int (n : Int64) : Matches W (.int n) (.int n)
  | float (x : Float) : Matches W (.float x) (.float x)
  | symbol (name : String) : Matches W (.symbol name) (.symbol name)
  | bool (b : Bool) : Matches W (.bool b) (.bool b)
  | primitive (p : Primitive) : Matches W (.primitive p) (.primitive p)
  | unspecified : Matches W .unspecified .unspecified
  | list {i j items items'} : W.tags (.list i) (.list j) →
      Forall₂ (Matches W) items items' → Matches W (.list i items) (.list j items')
  | created {f g} : W.calls f g → Matches W f g

/-- A later correspondence has all that an earlier one has. -/
structure Correspondence.Le (V W : Correspondence) : Prop where
  tags : ∀ {t u}, V.tags t u → W.tags t u
  calls : ∀ {f g}, V.calls f g → W.calls f g

namespace Correspondence

theorem Le.refl (W : Correspondence) : W.Le W :=
  ⟨id, id⟩

theorem Le.trans {U V W : Correspondence} (h : U.Le V) (h' : V.Le W) : U.Le W :=
  ⟨h'.tags ∘ h.tags, h'.calls ∘ h.calls⟩

/-- Nothing belongs together yet. -/
def empty : Correspondence where
  tags _ _ := False
  unique h _ := h.elim
  calls _ _ := False
  created h := h.elim
  tagged h := h.elim

/-- Two identities belong together from now on, if neither belongs to another. -/
def join (W : Correspondence) (t u : Value.Tag)
    (honly : ∀ t' u', W.tags t' u' → (t' = t ↔ u' = u)) : Correspondence where
  tags t' u' := W.tags t' u' ∨ (t' = t ∧ u' = u)
  unique := by
    rintro t₁ t₂ u₁ u₂ (h₁ | ⟨rfl, rfl⟩) (h₂ | ⟨rfl, rfl⟩)
    · exact W.unique h₁ h₂
    · exact honly _ _ h₁
    · exact eq_comm.trans ((honly _ _ h₂).trans eq_comm)
    · exact iff_of_true rfl rfl
  calls := W.calls
  created := W.created
  tagged h := by
    obtain ⟨t, u, ht, hu, htu⟩ := W.tagged h
    exact ⟨t, u, ht, hu, .inl htu⟩

/-- Two new identities belong together from now on. -/
def link (W : Correspondence) (t u : Value.Tag)
    (hnew : ∀ t' u', W.tags t' u' → t' ≠ t ∧ u' ≠ u) : Correspondence :=
  W.join t u fun _ _ h => iff_of_false (hnew _ _ h).1 (hnew _ _ h).2

/-- Two procedures whose identities belong together do so from now on. -/
def adjoin (W : Correspondence) (f g : Value) (hf : f.isCreated = true) (hg : g.isCreated = true)
    (htagged : ∃ t u, f.tag? = some t ∧ g.tag? = some u ∧ W.tags t u) : Correspondence where
  tags := W.tags
  unique := W.unique
  calls f' g' := W.calls f' g' ∨ (f' = f ∧ g' = g)
  created := by
    rintro f' g' (h | ⟨rfl, rfl⟩)
    · exact W.created h
    · exact ⟨hf, hg⟩
  tagged := by
    rintro f' g' (h | ⟨rfl, rfl⟩)
    · exact W.tagged h
    · exact htagged

end Correspondence

namespace Matches

variable {V W : Correspondence} {a b a' b' : Value}

mutual

theorem mono (h : V.Le W) : ∀ (a b : Value), Matches V a b → Matches W a b
  | _, _, .int n => .int n
  | _, _, .float x => .float x
  | _, _, .symbol name => .symbol name
  | _, _, .bool b => .bool b
  | _, _, .primitive p => .primitive p
  | _, _, .unspecified => .unspecified
  | .list _ items, .list _ items', .list hids hitems =>
      .list (h.tags hids) (monoAll h items items' hitems)
  | _, _, .created hcalls => .created (h.calls hcalls)

theorem monoAll (h : V.Le W) :
    ∀ (as bs : List Value), Forall₂ (Matches V) as bs → Forall₂ (Matches W) as bs
  | [], [], .nil => .nil
  | a :: as, b :: bs, .cons hab hrest => .cons (mono h a b hab) (monoAll h as bs hrest)

end

/-- A question about the kind of a value alone has one answer. -/
theorem test_eq {holds : Value → Bool}
    (hlist : ∀ i j items items', items.isEmpty = items'.isEmpty →
      holds (.list i items) = holds (.list j items'))
    (hcreated : ∀ f, f.isCreated = true → holds f = holds (.lambda 0 [] .unspecified))
    (h : Matches W a b) : holds a = holds b := by
  cases h with
  | list hids hitems =>
      refine hlist _ _ _ _ ?_
      cases hitems <;> rfl
  | created hcalls =>
      obtain ⟨ha, hb⟩ := W.created hcalls
      rw [hcreated a ha, hcreated b hb]
  | _ => rfl

theorem isTruthy_eq (h : Matches W a b) : a.isTruthy = b.isTruthy :=
  h.test_eq (fun _ _ _ _ _ => rfl) fun f hf => by cases f <;> cases hf <;> rfl

theorem isNumber_eq (h : Matches W a b) : a.isNumber = b.isNumber :=
  h.test_eq (fun _ _ _ _ _ => rfl) fun f hf => by cases f <;> cases hf <;> rfl

theorem isSymbol_eq (h : Matches W a b) : a.isSymbol = b.isSymbol :=
  h.test_eq (fun _ _ _ _ _ => rfl) fun f hf => by cases f <;> cases hf <;> rfl

theorem isList_eq (h : Matches W a b) : a.isList = b.isList :=
  h.test_eq (fun _ _ _ _ _ => rfl) fun f hf => by cases f <;> cases hf <;> rfl

theorem isNil_eq (h : Matches W a b) : a.isNil = b.isNil :=
  h.test_eq (fun _ _ _ _ he => he) fun f hf => by cases f <;> cases hf <;> rfl

theorem isProcedure_eq (h : Matches W a b) : a.isProcedure = b.isProcedure :=
  h.test_eq (fun _ _ _ _ _ => rfl) fun f hf => by cases f <;> cases hf <;> rfl

theorem isSelfEvaluating_eq (h : Matches W a b) : a.isSelfEvaluating = b.isSelfEvaluating :=
  h.test_eq (fun _ _ _ _ _ => rfl) fun f hf => by cases f <;> cases hf <;> rfl

theorem isCreated_eq (h : Matches W a b) : a.isCreated = b.isCreated :=
  h.test_eq (fun _ _ _ _ _ => rfl) fun f hf => by cases f <;> cases hf <;> rfl

/-- Numbers correspond to themselves alone. -/
theorem eq_of_isNumber (h : Matches W a b) (ha : a.isNumber = true) : a = b := by
  cases h with
  | created hcalls =>
      have := (W.created hcalls).1
      cases a <;> cases this <;> cases ha
  | list | symbol | bool | primitive | unspecified => cases ha
  | _ => rfl

theorem of_isNumber (ha : a.isNumber = true) : Matches W a a := by
  cases a with
  | int n => exact .int n
  | float x => exact .float x
  | _ => cases ha

theorem equal_of_isCreated (h : Matches W a a') (h' : Matches W b b')
    (ha : a.isCreated = true) (hb : b.isCreated = true) : a.equal b = a'.equal b' := by
  have ha' := h.isCreated_eq.symm.trans ha
  have hb' := h'.isCreated_eq.symm.trans hb
  rw [Value.equal_of_isCreated ha hb, Value.equal_of_isCreated ha' hb']
  cases h with
  | created hcalls =>
      cases h' with
      | created hcalls' =>
          obtain ⟨t, u, ht, hu, htu⟩ := W.tagged hcalls
          obtain ⟨t', u', ht', hu', htu'⟩ := W.tagged hcalls'
          rw [ht, hu, ht', hu', decide_eq_decide, Option.some_inj, Option.some_inj]
          exact W.unique htu htu'
      | _ => cases hb
  | _ => cases ha

end Matches

theorem Value.equal_eq_false_of_isCreated_ne {a b : Value} (h : a.isCreated ≠ b.isCreated) :
    a.equal b = false := by
  cases a <;> cases b <;> first | rfl | exact absurd rfl h

namespace Matches

variable {W : Correspondence}

mutual

/-- Structural equality cannot tell corresponding values apart. -/
theorem equal_eq : ∀ {a b a' b' : Value}, Matches W a a' → Matches W b b' →
    a.equal b = a'.equal b'
  | a, b, a', b', ha, hb => by
      by_cases hcreated : a.isCreated = true ∧ b.isCreated = true
      · exact ha.equal_of_isCreated hb hcreated.1 hcreated.2
      · by_cases hne : a.isCreated = b.isCreated
        · have hfalse : a.isCreated = false ∧ b.isCreated = false := by
            cases h : a.isCreated <;> simp_all
          cases ha with
          | created hcalls => simp [(W.created hcalls).1] at hfalse
          | list _ has =>
              cases hb with
              | created hcalls => simp [(W.created hcalls).1] at hfalse
              | list _ hbs => exact equalAll_eq has hbs
              | _ => rfl
          | _ =>
              cases hb with
              | created hcalls => simp [(W.created hcalls).1] at hfalse
              | _ => rfl
        · have hne' : a'.isCreated ≠ b'.isCreated := by
            rwa [← ha.isCreated_eq, ← hb.isCreated_eq]
          rw [Value.equal_eq_false_of_isCreated_ne hne,
            Value.equal_eq_false_of_isCreated_ne hne']

theorem equalAll_eq : ∀ {as bs as' bs' : List Value}, Forall₂ (Matches W) as as' →
    Forall₂ (Matches W) bs bs' → Value.equalAll as bs = Value.equalAll as' bs'
  | [], [], [], [], .nil, .nil => rfl
  | [], _ :: _, [], _ :: _, .nil, .cons _ _ => rfl
  | _ :: _, [], _ :: _, [], .cons _ _, .nil => rfl
  | _ :: _, _ :: _, _ :: _, _ :: _, .cons ha has, .cons hb hbs => by
      rw [Value.equalAll, Value.equalAll, equal_eq ha hb, equalAll_eq has hbs]

end

theorem identical_eq {a b a' b' : Value} (ha : Matches W a a') (hb : Matches W b b') :
    a.identical b = a'.identical b' := by
  by_cases hlists : a.isList = false ∨ b.isList = false
  · have hlists' : a'.isList = false ∨ b'.isList = false := by
      rwa [← ha.isList_eq, ← hb.isList_eq]
    rw [Value.identical_eq_equal hlists, Value.identical_eq_equal hlists', ha.equal_eq hb]
  · cases ha with
    | list hi has =>
        cases hb with
        | list hj hbs =>
            have hsame := W.unique hi hj
            simp only [Value.Tag.list.injEq] at hsame
            simp only [Value.identical, beq_eq_decide, hsame]
            cases has <;> cases hbs <;> rfl
        | created hcalls =>
            have := (W.created hcalls).1
            cases b <;> cases this <;> simp [Value.isList] at hlists
        | _ => simp [Value.isList] at hlists
    | created hcalls =>
        have := (W.created hcalls).1
        cases a <;> cases this <;> simp [Value.isList] at hlists
    | _ => simp [Value.isList] at hlists

end Matches

end TwinScheme

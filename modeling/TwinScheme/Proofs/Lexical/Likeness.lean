import TwinScheme.Proofs.Evaluator.Indifference

/-!
# What an error message can show

The evaluator puts values into messages: the expression that is no clause, the
body that was being evaluated, the name that is repeated. Two runs that do the
same may put different things there. `Like` says how different: identities and
the insides of procedures are never shown, and names may be renamed. Without a
renaming nothing of the difference can be seen, and the messages are equal.
-/

namespace TwinScheme

open List (Forall₂)

/-- Values that look alike, but for names that may be renamed. -/
inductive Value.Like (r : String → String) : Value → Value → Prop
  | int (n) : Like r (.int n) (.int n)
  | float (x) : Like r (.float x) (.float x)
  | bool (b) : Like r (.bool b) (.bool b)
  | primitive (p) : Like r (.primitive p) (.primitive p)
  | unspecified : Like r .unspecified .unspecified
  | symbol (name) : Like r (.symbol name) (.symbol name)
  | renamed (name) : Like r (.symbol name) (.symbol (r name))
  | list {i j items items'} : Forall₂ (Like r) items items' →
      Like r (.list i items) (.list j items')
  | closure {i j params params' body body' env env'} :
      Like r (.closure i params body env) (.closure j params' body' env')
  | lambda {i j params params' body body'} :
      Like r (.lambda i params body) (.lambda j params' body')

/-- Type faults that show things which look alike. -/
inductive TypeFault.Like (r : String → String) : TypeFault → TypeFault → Prop
  | refl (fault) : Like r fault fault
  | needsProcedure (p) {got got'} : got.Like r got' →
      Like r (.needsProcedure p got) (.needsProcedure p got')
  | notApplicable {got got'} : got.Like r got' → Like r (.notApplicable got) (.notApplicable got')
  | parameterNotSymbol {got got'} : got.Like r got' →
      Like r (.parameterNotSymbol got) (.parameterNotSymbol got')
  | badBinding {got got'} : got.Like r got' → Like r (.badBinding got) (.badBinding got')
  | bindingNotSymbol {got got'} : got.Like r got' →
      Like r (.bindingNotSymbol got) (.bindingNotSymbol got')
  | clauseNotList {got got'} : got.Like r got' →
      Like r (.clauseNotList got) (.clauseNotList got')

/-- Faults of which one may show a name renamed. -/
inductive EvalFault.Like (r : String → String) : EvalFault → EvalFault → Prop
  | refl (fault) : Like r fault fault
  | repeatedParameter (name) : Like r (.repeatedParameter name) (.repeatedParameter (r name))

/-- Errors as they arise, without a context. -/
inductive Error.Raised (r : String → String) : Error → Error → Prop
  | read (fault) : Raised r (.read fault) (.read fault)
  | eval {fault fault'} : fault.Like r fault' → Raised r (.eval fault none) (.eval fault' none)
  | type {fault fault'} : fault.Like r fault' → Raised r (.type fault none) (.type fault' none)
  | unbound (name) : Raised r (.unbound name) (.unbound name)
  | arity (expected got) : Raised r (.arity expected got) (.arity expected got)

/-- Errors of one kind: the same unbound name, the same two numbers, and
otherwise faults that differ in the names they show at most. -/
inductive Error.Akin (r : String → String) : Error → Error → Prop
  | read (fault) : Akin r (.read fault) (.read fault)
  | eval {fault fault'} (c c') : fault.Like r fault' → Akin r (.eval fault c) (.eval fault' c')
  | type {fault fault'} (c c') : fault.Like r fault' → Akin r (.type fault c) (.type fault' c')
  | unbound (name) : Akin r (.unbound name) (.unbound name)
  | arity (expected got) : Akin r (.arity expected got) (.arity expected got)

/-- Errors of one kind that read the same. -/
inductive Error.Same : Error → Error → Prop
  | read (fault) : Same (.read fault) (.read fault)
  | eval (fault) {c c'} : c.map Value.display = c'.map Value.display →
      Same (.eval fault c) (.eval fault c')
  | type {fault fault' : TypeFault} {c c'} : fault.message = fault'.message →
      c.map Value.display = c'.map Value.display → Same (.type fault c) (.type fault' c')
  | unbound (name) : Same (.unbound name) (.unbound name)
  | arity (expected got) : Same (.arity expected got) (.arity expected got)

/-- What becomes of two computations that only check, but for names that may be
renamed in what they show. -/
inductive Checked {α β : Type} (r : String → String) (Q : α → β → Prop) :
    Except Error α → Except Error β → Prop
  | ok {a b} : Q a b → Checked r Q (.ok a) (.ok b)
  | refused {e e' : Error} : e.Raised r e' → Checked r Q (.error e) (.error e')

namespace Checked

variable {α β γ δ : Type} {r : String → String} {P : α → β → Prop} {Q : γ → δ → Prop}
  {x : Except Error α} {y : Except Error β}

theorem map {f : α → γ} {g : β → δ} (h : Checked r P x y) (hf : ∀ a b, P a b → Q (f a) (g b)) :
    Checked r Q (x.map f) (y.map g) := by
  cases h with
  | ok hab => exact .ok (hf _ _ hab)
  | refused he => exact .refused he

theorem bind {f : α → Except Error γ} {g : β → Except Error δ} (h : Checked r P x y)
    (hf : ∀ a b, P a b → Checked r Q (f a) (g b)) : Checked r Q (x >>= f) (y >>= g) := by
  cases h with
  | ok hab => exact hf _ _ hab
  | refused he => exact .refused he

theorem mapM {S : α → β → Prop} {as : List α} {bs : List β} {f : α → Except Error γ}
    {g : β → Except Error δ} (h : Forall₂ S as bs) (hf : ∀ a b, S a b → Checked r Q (f a) (g b)) :
    Checked r (Forall₂ Q) (as.mapM f) (bs.mapM g) := by
  induction h with
  | nil => exact .ok .nil
  | cons hab _ ih =>
      rw [List.mapM_cons, List.mapM_cons]
      exact (hf _ _ hab).bind fun c d hcd => ih.bind fun cs ds hcds => .ok (.cons hcd hcds)

end Checked

namespace Error

variable {r : String → String} {e f : Error} {b b' : Value}

theorem Raised.akin (h : e.Raised r f) : e.Akin r f := by
  cases h with
  | read fault => exact .read fault
  | eval hf => exact .eval none none hf
  | type hf => exact .type none none hf
  | unbound name => exact .unbound name
  | arity expected got => exact .arity expected got

theorem Akin.refl (e : Error) : e.Akin r e := by
  cases e with
  | read fault => exact .read fault
  | eval fault c => exact .eval c c (.refl fault)
  | type fault c => exact .type c c (.refl fault)
  | unbound name => exact .unbound name
  | arity expected got => exact .arity expected got

theorem Same.refl (e : Error) : e.Same e := by
  cases e with
  | read fault => exact .read fault
  | eval fault c => exact .eval fault rfl
  | type fault c => exact .type rfl rfl
  | unbound name => exact .unbound name
  | arity expected got => exact .arity expected got

theorem Akin.within (h : e.Akin r f) (b b' : Value) : (e.within b).Akin r (f.within b') := by
  -- Whether a context is added depends on the message, and messages may differ.
  have heval : ∀ fault c b, ∃ c', Error.within b (.eval fault c) = .eval fault c' := by
    intro fault c b
    cases c with
    | none =>
        rw [Error.within]
        split <;> exact ⟨_, rfl⟩
    | some c => exact ⟨_, rfl⟩
  have htype : ∀ fault c b, ∃ c', Error.within b (.type fault c) = .type fault c' := by
    intro fault c b
    cases c with
    | none =>
        rw [Error.within]
        split <;> exact ⟨_, rfl⟩
    | some c => exact ⟨_, rfl⟩
  cases h with
  | read fault => exact .read fault
  | @eval fault fault' c c' hf =>
      obtain ⟨d, hd⟩ := heval fault c b
      obtain ⟨d', hd'⟩ := heval fault' c' b'
      rw [hd, hd']
      exact .eval d d' hf
  | @type fault fault' c c' hf =>
      obtain ⟨d, hd⟩ := htype fault c b
      obtain ⟨d', hd'⟩ := htype fault' c' b'
      rw [hd, hd']
      exact .type d d' hf
  | unbound name => exact .unbound name
  | arity expected got => exact .arity expected got

theorem contextText_eq {c c' : Option Value} (h : c.map Value.display = c'.map Value.display) :
    contextText c = contextText c' := by
  cases c with
  | none =>
      cases c' with
      | none => rfl
      | some _ => cases h
  | some _ =>
      cases c' with
      | none => cases h
      | some _ =>
          rw [contextText, contextText, Option.some.inj h]

theorem Same.message_eq (h : e.Same f) : e.message = f.message := by
  cases h with
  | eval fault hc =>
      exact congrArg (fun text => "EvaluationError: " ++ fault.message ++ text)
        (contextText_eq hc)
  | type hf hc =>
      exact congrArg₂ (fun text text' => "Type error: " ++ text ++ text') hf (contextText_eq hc)
  | read | unbound | arity => rfl

end Error

/-! ## Without a renaming -/

namespace Value.Like

mutual

/-- Nothing of the difference can be seen. -/
theorem display_eq : ∀ {a b : Value}, a.Like id b → a.display = b.display
  | _, _, .int _ | _, _, .float _ | _, _, .bool _ | _, _, .primitive _ | _, _, .unspecified
  | _, _, .symbol _ | _, _, .renamed _ | _, _, .closure | _, _, .lambda => rfl
  | .list _ _, .list _ _, .list h => by
      rw [Value.display, Value.display, displayAll_eq h]

theorem displayAll_eq : ∀ {as bs : List Value}, Forall₂ (Value.Like id) as bs →
    Value.displayAll as = Value.displayAll bs
  | [], [], .nil => rfl
  | _ :: _, _ :: _, .cons hab habs => by
      rw [Value.displayAll, Value.displayAll, display_eq hab, displayAll_eq habs]

end

end Value.Like

theorem TypeFault.Like.message_eq {fault fault' : TypeFault} (h : fault.Like id fault') :
    fault.message = fault'.message := by
  cases h with
  | refl => rfl
  | needsProcedure p hgot =>
      exact congrArg (fun text => p.name ++ " requires a procedure, got " ++ text) hgot.display_eq
  | notApplicable hgot =>
      exact congrArg (fun text => "Cannot apply non-function: " ++ text) hgot.display_eq
  | parameterNotSymbol hgot =>
      exact congrArg (fun text => "Lambda parameters must be symbols, got " ++ text)
        hgot.display_eq
  | badBinding hgot =>
      exact congrArg (fun text => "let binding must be (name expr), got " ++ text)
        hgot.display_eq
  | bindingNotSymbol hgot =>
      exact congrArg (fun text => "let binding name must be a symbol, got " ++ text)
        hgot.display_eq
  | clauseNotList hgot =>
      exact congrArg (fun text => "cond clause must be a list, got " ++ text) hgot.display_eq

namespace Error

variable {e f : Error} {b b' : Value}

theorem Raised.same (h : e.Raised id f) : e.Same f := by
  cases h with
  | read fault => exact .read fault
  | eval hf =>
      cases hf with
      | refl => exact .eval _ rfl
      | repeatedParameter name => exact .eval (.repeatedParameter name) rfl
  | type hf => exact .type hf.message_eq rfl
  | unbound name => exact .unbound name
  | arity expected got => exact .arity expected got

theorem Same.within (h : e.Same f) (hb : b.Like id b') : (e.within b).Same (f.within b') := by
  have hnone : ∀ {c c' : Option Value}, c.map Value.display = c'.map Value.display →
      (c = none ↔ c' = none) := by
    intro c c' hc
    cases c <;> cases c' <;> simp_all
  cases h with
  | read fault => exact .read fault
  | @eval fault c c' hc =>
      cases c with
      | none =>
          cases (hnone hc).1 rfl
          rw [Error.within, Error.within]
          split
          · exact .eval fault rfl
          · exact .eval fault (congrArg some hb.display_eq)
      | some c =>
          cases c' with
          | none => cases hc
          | some c' => exact .eval fault hc
  | @type fault fault' c c' hf hc =>
      cases c with
      | none =>
          cases (hnone hc).1 rfl
          rw [Error.within, Error.within, hf]
          split
          · exact .type hf rfl
          · exact .type hf (congrArg some hb.display_eq)
      | some c =>
          cases c' with
          | none => cases hc
          | some c' => exact .type hf hc
  | unbound name => exact .unbound name
  | arity expected got => exact .arity expected got

end Error

end TwinScheme

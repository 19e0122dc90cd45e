import TwinScheme.Proofs.Evaluator.Correspondence

/-!
# Primitives cannot tell corresponding arguments apart

Whatever a primitive asks for of one run's arguments, it asks for the
corresponding thing of the other's, and what it refuses it refuses alike. Two
facts carry the table. Arithmetic looks at numbers only, which correspond to
themselves, so its answers are equal and not just corresponding; lists are
taken apart and put together element by element. Equality is the one question
about the insides of values, and it was settled where values were compared.
-/

namespace TwinScheme

open List (Forall₂)

/-- Whether nothing in a value was made by a run. -/
def Value.isAtomic : Value → Bool
  | list .. | closure .. | lambda .. => false
  | _ => true

/-- Failures on corresponding values: the same, unless one is shown a value. -/
inductive Error.Arises (W : Correspondence) : Error → Error → Prop
  | refl (e : Error) : Arises W e e
  | needsProcedure (p : Primitive) {got got' : Value} : Matches W got got' →
      Arises W (.type (.needsProcedure p got) none) (.type (.needsProcedure p got') none)

theorem Error.Arises.alike {W : Correspondence} {e f : Error} (h : e.Arises W f) : e.Alike f := by
  cases h with
  | refl => exact .refl e
  | needsProcedure p _ => exact .type _ _ _ _

/-- Results that correspond, or failures on corresponding values. -/
inductive Likewise {α β : Type} (W : Correspondence) (R : α → β → Prop) :
    Except Error α → Except Error β → Prop
  | ok {a b} : R a b → Likewise W R (.ok a) (.ok b)
  | error {e f} : e.Arises W f → Likewise W R (.error e) (.error f)

/-- What is left to do corresponds. -/
inductive Outcome.Matches (W : Correspondence) : Outcome → Outcome → Prop
  | value {v v'} : TwinScheme.Matches W v v' → Matches W (.value v) (.value v')
  | fresh {items items'} : Forall₂ (TwinScheme.Matches W) items items' →
      Matches W (.fresh items) (.fresh items')
  | each {f f' calls calls'} : TwinScheme.Matches W f f' →
      Forall₂ (Forall₂ (TwinScheme.Matches W)) calls calls' →
      Matches W (.each f calls) (.each f' calls')

variable {W : Correspondence} {a b a' b' : Value} {args args' : List Value}

theorem Matches.of_isAtomic (ha : a.isAtomic = true) : Matches W a a := by
  cases a with
  | int n => exact .int n
  | float x => exact .float x
  | symbol name => exact .symbol name
  | bool b => exact .bool b
  | primitive p => exact .primitive p
  | unspecified => exact .unspecified
  | list | closure | lambda => cases ha

theorem Value.isAtomic_of_isNumber (h : a.isNumber = true) : a.isAtomic = true := by
  cases a with
  | int | float => rfl
  | _ => cases h

namespace Likewise

variable {α β γ δ : Type} {R : α → β → Prop} {Q : γ → δ → Prop}

theorem map {x : Except Error α} {y : Except Error β} {f : α → γ} {g : β → δ}
    (h : Likewise W R x y) (hf : ∀ a b, R a b → Q (f a) (g b)) :
    Likewise W Q (x.map f) (y.map g) := by
  cases h with
  | ok hab => exact .ok (hf _ _ hab)
  | error he => exact .error he

/-- Equal answers that hold nothing a run made. -/
theorem of_eq {x y : Except Error Value} (h : x = y)
    (hx : ∀ v, x = .ok v → v.isAtomic = true) : Likewise W (Matches W) x y := by
  cases h
  cases x with
  | ok v => exact .ok (.of_isAtomic (hx v rfl))
  | error e => exact .error (.refl e)

end Likewise

/-! ## Arithmetic -/

namespace Arithmetic

theorem toFloat?_eq_none (h : a.isNumber = false) : toFloat? a = none := by
  cases a with
  | int | float => cases h
  | _ => rfl

theorem operands_eq_error (p : Primitive) (h : a.isNumber = false ∨ b.isNumber = false) :
    operands p a b = .error (.type (.needsNumbers p) none) := by
  rcases h with h | h
  · have hints : ∀ x y, a = .int x → b = .int y → False := by
      rintro x y rfl -
      cases h
    rw [operands.eq_2 _ _ _ hints, toFloat?_eq_none h]
  · have hints : ∀ x y, a = .int x → b = .int y → False := by
      rintro x y - rfl
      cases h
    rw [operands.eq_2 _ _ _ hints, toFloat?_eq_none h]
    cases toFloat? a <;> rfl

theorem operands_eq (p : Primitive) (ha : Matches W a a') (hb : Matches W b b') :
    operands p a b = operands p a' b' := by
  by_cases h : a.isNumber = true ∧ b.isNumber = true
  · rw [ha.eq_of_isNumber h.1, hb.eq_of_isNumber h.2]
  · have hno : a.isNumber = false ∨ b.isNumber = false := by
      cases h₁ : a.isNumber <;> cases h₂ : b.isNumber <;> simp_all
    rw [operands_eq_error p hno]
    rw [ha.isNumber_eq, hb.isNumber_eq] at hno
    rw [operands_eq_error p hno]

theorem isNumber_of_exact {p : Primitive} {n : Int} {v : Value} (h : exact p n = .ok v) :
    v.isNumber = true := by
  unfold exact at h
  split at h <;> cases h
  rfl

section

variable {p : Primitive} {onInts : Int → Int → Int} {onFloats : Float → Float → Float}

theorem combine_eq (ha : Matches W a a') (hb : Matches W b b') :
    combine p onInts onFloats a b = combine p onInts onFloats a' b' := by
  rw [combine, combine, operands_eq p ha hb]

theorem isNumber_of_combine {v : Value} (h : combine p onInts onFloats a b = .ok v) :
    v.isNumber = true := by
  unfold combine at h
  split at h
  · exact isNumber_of_exact h
  · cases h
    rfl
  · cases h

theorem foldlM_combine_eq {acc : Value} (hacc : acc.isNumber = true)
    (h : Forall₂ (Matches W) args args') :
    args.foldlM (combine p onInts onFloats) acc =
      args'.foldlM (combine p onInts onFloats) acc := by
  induction h generalizing acc with
  | nil => rfl
  | cons ha _ ih =>
      rw [List.foldlM_cons, List.foldlM_cons, combine_eq (.of_isNumber hacc) ha]
      cases hc : combine p onInts onFloats acc _ with
      | error e => rfl
      | ok v => exact ih (isNumber_of_combine hc)

theorem isNumber_of_foldlM_combine {acc v : Value} (hacc : acc.isNumber = true)
    (h : args.foldlM (combine p onInts onFloats) acc = .ok v) : v.isNumber = true := by
  induction args generalizing acc with
  | nil =>
      cases h
      exact hacc
  | cons a args ih =>
      rw [List.foldlM_cons] at h
      cases hc : combine p onInts onFloats acc a with
      | error e =>
          rw [hc] at h
          cases h
      | ok w =>
          rw [hc] at h
          exact ih (isNumber_of_combine hc) h

end

theorem combine_likewise (p : Primitive) (onInts : Int → Int → Int)
    (onFloats : Float → Float → Float) (ha : Matches W a a') (hb : Matches W b b') :
    Likewise W (Matches W) (combine p onInts onFloats a b) (combine p onInts onFloats a' b') :=
  .of_eq (combine_eq ha hb) fun _ h => Value.isAtomic_of_isNumber (isNumber_of_combine h)

theorem compare_likewise (p : Primitive) (onInts : Int → Int → Bool)
    (onFloats : Float → Float → Bool) (ha : Matches W a a') (hb : Matches W b b') :
    Likewise W (Matches W) (compare p onInts onFloats a b) (compare p onInts onFloats a' b') := by
  refine .of_eq (by rw [compare, compare, operands_eq p ha hb]) fun v h => ?_
  unfold compare at h
  split at h <;> cases h <;> rfl

theorem divide_likewise (ha : Matches W a a') (hb : Matches W b b') :
    Likewise W (Matches W) (divide a b) (divide a' b') := by
  refine .of_eq (by rw [divide, divide, operands_eq .div ha hb]) fun v h => ?_
  unfold divide at h
  split at h
  · split at h
    · cases h
    · split at h <;> cases h <;> rfl
  · cases h
    rfl
  · cases h

theorem magnitude_eq_error (h : a.isNumber = false) :
    magnitude a = .error (.type (.needsNumber .abs) none) := by
  cases a with
  | int | float => cases h
  | _ => rfl

theorem magnitude_likewise (ha : Matches W a a') :
    Likewise W (Matches W) (magnitude a) (magnitude a') := by
  cases hn : a.isNumber with
  | true =>
      refine .of_eq (by rw [ha.eq_of_isNumber hn]) fun v h => Value.isAtomic_of_isNumber ?_
      unfold magnitude at h
      split at h
      · exact isNumber_of_exact h
      · cases h
        rfl
      · cases h
  | false =>
      rw [magnitude_eq_error hn, magnitude_eq_error (ha.isNumber_eq ▸ hn)]
      exact .error (.refl _)

theorem round_eq_error (h : a.isNumber = false) :
    round a = .error (.type (.needsNumber .round) none) := by
  cases a with
  | int | float => cases h
  | _ => rfl

theorem round_likewise (ha : Matches W a a') :
    Likewise W (Matches W) (round a) (round a') := by
  cases hn : a.isNumber with
  | true =>
      refine .of_eq (by rw [ha.eq_of_isNumber hn]) fun v h => Value.isAtomic_of_isNumber ?_
      unfold round at h
      split at h <;> cases h <;> rfl
  | false =>
      rw [round_eq_error hn, round_eq_error (ha.isNumber_eq ▸ hn)]
      exact .error (.refl _)

theorem sum_likewise (h : Forall₂ (Matches W) args args') :
    Likewise W (Matches W) (sum args) (sum args') := by
  cases h with
  | nil => exact .error (.refl _)
  | @cons a a' rest rest' ha hrest =>
      cases hn : a.isNumber with
      | true =>
          cases ha.eq_of_isNumber hn
          rw [sum, sum, if_pos hn, if_pos hn]
          exact .of_eq (foldlM_combine_eq hn hrest) fun v h =>
            Value.isAtomic_of_isNumber (isNumber_of_foldlM_combine hn h)
      | false =>
          rw [sum, sum, if_neg (by simp [hn]), if_neg (by simp [← ha.isNumber_eq, hn])]
          exact .error (.refl _)

/-- Numbers with their images are a matter of numbers. -/
theorem mapM_imaged?_eq (h : Forall₂ (Matches W) args args') :
    args.mapM imaged? = args'.mapM imaged? := by
  induction h with
  | nil => rfl
  | @cons a a' rest rest' ha _ ih =>
      have himage : imaged? a = imaged? a' := by
        cases hn : a.isNumber with
        | true => rw [ha.eq_of_isNumber hn]
        | false =>
            rw [imaged?, imaged?, toFloat?_eq_none hn,
              toFloat?_eq_none (ha.isNumber_eq ▸ hn)]
            rfl
      rw [List.mapM_cons, List.mapM_cons, himage, ih]

theorem any_isFloat_eq (h : Forall₂ (Matches W) args args') :
    args.any isFloat = args'.any isFloat := by
  induction h with
  | nil => rfl
  | @cons a a' rest rest' ha _ ih =>
      have hfloat : isFloat a = isFloat a' :=
        ha.test_eq (fun _ _ _ _ _ => rfl) fun f hf => by cases f <;> cases hf <;> rfl
      rw [List.any_cons, List.any_cons, ih, hfloat]

theorem isNumber_of_mem_imaged {images : List (Value × Float)}
    (h : args.mapM imaged? = some images) : ∀ image ∈ images, image.1.isNumber = true := by
  induction args generalizing images with
  | nil =>
      cases h
      simp
  | cons a rest ih =>
      rw [List.mapM_cons] at h
      simp only [Option.bind_eq_bind, Option.bind_eq_some_iff, Option.pure_def,
        Option.some.injEq] at h
      obtain ⟨image, ha, images, hrest, rfl⟩ := h
      intro other hm
      rcases List.mem_cons.1 hm with rfl | hm
      · obtain ⟨x, hx, rfl⟩ := Option.map_eq_some_iff.1 ha
        cases hn : a.isNumber with
        | true => rfl
        | false =>
            rw [toFloat?_eq_none hn] at hx
            cases hx
      · exact ih hrest other hm

theorem mem_of_foldl_better (better : Float → Float → Bool) (first : Value × Float)
    (rest : List (Value × Float)) :
    rest.foldl (fun best next => if better next.2 best.2 then next else best) first ∈
      first :: rest := by
  induction rest generalizing first with
  | nil => exact List.mem_singleton.2 rfl
  | cons next rest ih =>
      rw [List.foldl_cons]
      split
      · exact List.mem_cons_of_mem _ (ih next)
      · rcases List.mem_cons.1 (ih first) with h | h
        · rw [h]
          exact List.mem_cons_self
        · exact List.mem_cons_of_mem _ (List.mem_cons_of_mem _ h)

theorem extreme_likewise (p : Primitive) (better : Float → Float → Bool)
    (h : Forall₂ (Matches W) args args') :
    Likewise W (Matches W) (extreme p better args) (extreme p better args') := by
  refine .of_eq (by rw [extreme, extreme, mapM_imaged?_eq h, any_isFloat_eq h]) fun v hv => ?_
  unfold extreme at hv
  split at hv
  · cases hv
  · cases hv
  · next first rest himages =>
      cases hv
      split
      · rfl
      · exact Value.isAtomic_of_isNumber
          (isNumber_of_mem_imaged himages _ (mem_of_foldl_better better first rest))

end Arithmetic

/-! ## Lists -/

namespace Lists

theorem first_likewise (ha : Matches W a a') :
    Likewise W (Matches W) (first a) (first a') := by
  cases ha with
  | list _ hitems =>
      cases hitems with
      | nil => exact .error (.refl _)
      | cons hv _ => exact .ok hv
  | created hcalls =>
      obtain ⟨hf, hg⟩ := W.created hcalls
      cases a <;> cases hf <;> cases a' <;> cases hg <;> exact .error (.refl _)
  | _ => exact .error (.refl _)

theorem rest_likewise (ha : Matches W a a') :
    Likewise W (Forall₂ (Matches W)) (rest a) (rest a') := by
  cases ha with
  | list _ hitems =>
      cases hitems with
      | nil => exact .error (.refl _)
      | cons _ hvs => exact .ok hvs
  | created hcalls =>
      obtain ⟨hf, hg⟩ := W.created hcalls
      cases a <;> cases hf <;> cases a' <;> cases hg <;> exact .error (.refl _)
  | _ => exact .error (.refl _)

theorem items?_rel (ha : Matches W a a') :
    Option.Rel (Forall₂ (Matches W)) a.items? a'.items? := by
  cases ha with
  | list _ hitems => exact .some hitems
  | created hcalls =>
      obtain ⟨hf, hg⟩ := W.created hcalls
      cases a <;> cases hf <;> cases a' <;> cases hg <;> exact .none
  | _ => exact .none

theorem prepend_likewise (ha : Matches W a a') (hb : Matches W b b') :
    Likewise W (Forall₂ (Matches W)) (prepend a b) (prepend a' b') := by
  have hprepend : ∀ v w, prepend v w =
      match w.items? with
      | some items => .ok (v :: items)
      | none => .error (.type .needsListTail none) := by
    intro v w
    cases w <;> rfl
  rw [hprepend, hprepend]
  have hrel := items?_rel hb
  generalize b.items? = items at hrel
  generalize b'.items? = items' at hrel
  cases hrel with
  | none => exact .error (.refl _)
  | some hitems => exact .ok (.cons ha hitems)

theorem length_likewise (ha : Matches W a a') :
    Likewise W (Matches W) (length a) (length a') := by
  have hlength : ∀ v, length v =
      match v.items? with
      | some items => .ok (.int (Int64.ofNat items.length))
      | none => .error (.type (.needsList .length) none) := by
    intro v
    cases v <;> rfl
  rw [hlength, hlength]
  have hrel := items?_rel ha
  generalize a.items? = items at hrel
  generalize a'.items? = items' at hrel
  cases hrel with
  | none => exact .error (.refl _)
  | some hitems =>
      simp only [hitems.length_eq]
      exact .ok (.int _)

theorem mapM_items?_rel (h : Forall₂ (Matches W) args args') :
    Option.Rel (Forall₂ (Forall₂ (Matches W)))
      (args.mapM Value.items?) (args'.mapM Value.items?) := by
  induction h with
  | nil => exact .some .nil
  | @cons a a' rest rest' ha _ ih =>
      rw [List.mapM_cons, List.mapM_cons]
      have hrel := items?_rel ha
      generalize a.items? = items at hrel
      generalize a'.items? = items' at hrel
      cases hrel with
      | none => exact .none
      | some hitems =>
          generalize rest.mapM Value.items? = lists at ih
          generalize rest'.mapM Value.items? = lists' at ih
          cases ih with
          | none => exact .none
          | some hlists => exact .some (.cons hitems hlists)

theorem contents_likewise (p : Primitive) (h : Forall₂ (Matches W) args args') :
    Likewise W (Forall₂ (Forall₂ (Matches W))) (contents p args) (contents p args') := by
  have hrel := mapM_items?_rel h
  unfold contents
  generalize args.mapM Value.items? = lists at hrel
  generalize args'.mapM Value.items? = lists' at hrel
  cases hrel with
  | none => exact .error (.refl _)
  | some hlists => exact .ok hlists

theorem getElem?_rel {α β : Type} {R : α → β → Prop} {xs : List α} {ys : List β}
    (h : Forall₂ R xs ys) (i : Nat) : Option.Rel R xs[i]? ys[i]? := by
  induction h generalizing i with
  | nil => exact .none
  | cons hab _ ih =>
      cases i with
      | zero => exact .some hab
      | succ i => exact ih i

theorem rows_rel {lists lists' : List (List Value)}
    (h : Forall₂ (Forall₂ (Matches W)) lists lists') :
    Forall₂ (Forall₂ (Matches W)) (rows lists) (rows lists') := by
  have hshort : shortest lists = shortest lists' := by
    have hlengths : lists.map List.length = lists'.map List.length := by
      induction h with
      | nil => rfl
      | cons hitems _ ih => rw [List.map_cons, List.map_cons, hitems.length_eq, ih]
    rw [shortest, shortest, hlengths]
  rw [rows, rows, hshort, List.forall₂_map_left_iff, List.forall₂_map_right_iff,
    List.forall₂_same]
  intro i _
  exact List.rel_filterMap (fun _ _ hitems => getElem?_rel hitems i) h

theorem mapCalls_likewise (h : Forall₂ (Matches W) args args') :
    Likewise W (Outcome.Matches W) (mapCalls args) (mapCalls args') := by
  cases h with
  | nil => exact .error (.refl _)
  | @cons f f' rest rest' hf hrest =>
      rw [mapCalls, mapCalls, ← hf.isProcedure_eq]
      split
      · exact (contents_likewise .map hrest).map fun _ _ hlists => .each hf (rows_rel hlists)
      · exact .error (.needsProcedure _ hf)

end Lists

/-! ## The table -/

namespace Primitive

theorem unary_likewise {g : Value → Except Error Outcome}
    (h : Forall₂ (Matches W) args args')
    (hg : ∀ a a', Matches W a a' → Likewise W (Outcome.Matches W) (g a) (g a')) :
    Likewise W (Outcome.Matches W) (unary g args) (unary g args') := by
  match h with
  | .nil => exact .error (.refl _)
  | .cons ha .nil => exact hg _ _ ha
  | .cons _ (.cons _ hrest) =>
      simp only [unary, List.length_cons, hrest.length_eq]
      exact .error (.refl _)

theorem binary_likewise {g : Value → Value → Except Error Outcome}
    (h : Forall₂ (Matches W) args args')
    (hg : ∀ a a' b b', Matches W a a' → Matches W b b' →
      Likewise W (Outcome.Matches W) (g a b) (g a' b')) :
    Likewise W (Outcome.Matches W) (binary g args) (binary g args') := by
  match h with
  | .nil => exact .error (.refl _)
  | .cons _ .nil => exact .error (.refl _)
  | .cons ha (.cons hb .nil) => exact hg _ _ _ _ ha hb
  | .cons _ (.cons _ (.cons _ hrest)) =>
      simp only [binary, List.length_cons, hrest.length_eq]
      exact .error (.refl _)

theorem test_likewise {holds : Value → Bool} (h : Forall₂ (Matches W) args args')
    (hholds : ∀ a a', Matches W a a' → holds a = holds a') :
    Likewise W (Outcome.Matches W) (test holds args) (test holds args') := by
  refine unary_likewise h fun a a' ha => ?_
  rw [hholds a a' ha]
  exact .ok (.value (.bool _))

theorem run_likewise (p : Primitive) (h : Forall₂ (Matches W) args args') :
    Likewise W (Outcome.Matches W) (p.run args) (p.run args') := by
  have hvalue : ∀ {x y : Except Error Value}, Likewise W (Matches W) x y →
      Likewise W (Outcome.Matches W) (x.map .value) (y.map .value) :=
    fun hxy => hxy.map fun _ _ => .value
  have hfresh : ∀ {x y : Except Error (List Value)}, Likewise W (Forall₂ (Matches W)) x y →
      Likewise W (Outcome.Matches W) (x.map .fresh) (y.map .fresh) :=
    fun hxy => hxy.map fun _ _ => .fresh
  cases p with
  | add => exact hvalue (Arithmetic.sum_likewise h)
  | max | min => exact hvalue (Arithmetic.extreme_likewise _ _ h)
  | sub | mul =>
      exact binary_likewise h fun _ _ _ _ ha hb =>
        hvalue (Arithmetic.combine_likewise _ _ _ ha hb)
  | div => exact binary_likewise h fun _ _ _ _ ha hb => hvalue (Arithmetic.divide_likewise ha hb)
  | greater | less | atLeast | atMost | numberEqual =>
      exact binary_likewise h fun _ _ _ _ ha hb =>
        hvalue (Arithmetic.compare_likewise _ _ _ ha hb)
  | abs => exact unary_likewise h fun _ _ ha => hvalue (Arithmetic.magnitude_likewise ha)
  | round => exact unary_likewise h fun _ _ ha => hvalue (Arithmetic.round_likewise ha)
  | identical =>
      refine binary_likewise h fun a a' b b' ha hb => ?_
      rw [ha.identical_eq hb]
      exact .ok (.value (.bool _))
  | equal =>
      refine binary_likewise h fun a a' b b' ha hb => ?_
      rw [ha.equal_eq hb]
      exact .ok (.value (.bool _))
  | car => exact unary_likewise h fun _ _ ha => hvalue (Lists.first_likewise ha)
  | cdr => exact unary_likewise h fun _ _ ha => hfresh (Lists.rest_likewise ha)
  | length => exact unary_likewise h fun _ _ ha => hvalue (Lists.length_likewise ha)
  | cons => exact binary_likewise h fun _ _ _ _ ha hb => hfresh (Lists.prepend_likewise ha hb)
  | append =>
      exact (Lists.contents_likewise .append h).map fun _ _ hlists =>
        .fresh (List.rel_flatten hlists)
  | list => exact .ok (.fresh h)
  | map => exact Lists.mapCalls_likewise h
  | not => exact test_likewise h fun _ _ ha => by rw [ha.isTruthy_eq]
  | isList => exact test_likewise h fun _ _ ha => ha.isList_eq
  | isNull => exact test_likewise h fun _ _ ha => ha.isNil_eq
  | isNumber => exact test_likewise h fun _ _ ha => ha.isNumber_eq
  | isSymbol => exact test_likewise h fun _ _ ha => ha.isSymbol_eq
  | isProcedure => exact test_likewise h fun _ _ ha => ha.isProcedure_eq

/-- A call of a primitive cannot tell corresponding arguments apart. -/
theorem call_likewise (p : Primitive) (h : Forall₂ (Matches W) args args') :
    Likewise W (Outcome.Matches W) (p.call args) (p.call args') := by
  rw [call, call, h.length_eq]
  cases p.arity.check args'.length with
  | error e => exact .error (.refl e)
  | ok _ => exact p.run_likewise h

end Primitive

end TwinScheme

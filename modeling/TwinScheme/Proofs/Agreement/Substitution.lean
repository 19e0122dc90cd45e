import TwinScheme.Proofs.Agreement.Hygiene
import TwinScheme.Proofs.Evaluator.Correspondence
import TwinScheme.Proofs.Lexical.Frames
import TwinScheme.Proofs.Textual.Replacement

/-!
# Bound in one run, replaced in the other

Where one run evaluates an expression with some parameters bound to values, the
other evaluates the expression with those parameters replaced. `Code` is that
relation: a bound name stands opposite an expression that denotes its value, a
free name opposite itself, and a quotation opposite the same data, since
substitution does not enter it.

Replacing one more parameter on the one side is binding one more parameter on
the other, which is `replace_ensures`, the only induction on expressions here.
It asks for what hygiene provides, that the parameter is not bound yet and that
no expression put in earlier mentions it. Calls and `let` are rows of such
replacements.
-/

namespace TwinScheme

open List (Forall₂)

/-! ## Settled names -/

/-- What the settled names of a program mean to the run that replaces names. -/
structure Meanings extends Kept where
  meaning : Locals
  isSome_iff : ∀ x, (meaning x).isSome = true ↔ x ∈ settled
  plain : ∀ x ∈ settled, Plain x
  mem_names : ∀ x ∈ settled, x ∈ names

namespace Meanings

theorem mem_settled (kept : Meanings) {x : String} {v : Value} (h : kept.meaning x = some v) :
    x ∈ kept.settled :=
  (kept.isSome_iff x).1 (h ▸ rfl)

/-- One more name means something. -/
def settle (kept : Meanings) (name : String) (v : Value) (hplain : Plain name)
    (hname : name ∈ kept.names) : Meanings where
  toKept := kept.toKept.settle name
  meaning := Function.update kept.meaning name (some v)
  isSome_iff x := by
    by_cases h : x = name
    · subst h
      simp [Kept.settle]
    · simp [Kept.settle, h, kept.isSome_iff]
  plain := List.forall_mem_cons.2 ⟨hplain, kept.plain⟩
  mem_names := List.forall_mem_cons.2 ⟨hname, kept.mem_names⟩

end Meanings

/-! ## Expressions opposite each other -/

/-- Expressions whose value is a given one whenever they are evaluated. -/
inductive Denotes (kept : Meanings) : Value → Value → Prop
  | self {w} : w.isSelfEvaluating = true → Denotes kept w w
  | quotation {w} (id) : Denotes kept w (Keyword.quote.form id [w])
  | name {g w} : kept.meaning g = some w → Denotes kept w (.symbol g)

/-- An expression with its parameters bound, and the expression in which they
are replaced. -/
inductive Code (W : Correspondence) (kept : Meanings) (ρ : Locals) : Value → Value → Prop
  | value {v w} : v.isSelfEvaluating = true → Matches W v w → Code W kept ρ v w
  | free {x} : ρ x = none → Code W kept ρ (.symbol x) (.symbol x)
  | bound {x v w s} : ρ x = some v → Matches W v w → Denotes kept w s →
      Code W kept ρ (.symbol x) s
  | quotation {i j rest rest'} : Forall₂ (Matches W) rest rest' →
      Code W kept ρ (Keyword.quote.form i rest) (Keyword.quote.form j rest')
  | list {i j items items'} : Textual.isQuotation items = false →
      Forall₂ (Code W kept ρ) items items' → Code W kept ρ (.list i items) (.list j items')

namespace Code

variable {V W : Correspondence} {kept : Meanings} {ρ : Locals}

mutual

theorem mono (h : V.Le W) : ∀ (e s : Value), Code V kept ρ e s → Code W kept ρ e s
  | _, _, .value hself hvw => .value hself (hvw.mono h)
  | _, _, .free hx => .free hx
  | _, _, .bound hx hvw hs => .bound hx (hvw.mono h) hs
  | _, _, .quotation hrest => .quotation (hrest.imp fun _ _ hvw => hvw.mono h)
  | .list _ items, .list _ items', .list hq hitems => .list hq (monoAll h items items' hitems)

theorem monoAll (h : V.Le W) : ∀ (es ss : List Value), Forall₂ (Code V kept ρ) es ss →
    Forall₂ (Code W kept ρ) es ss
  | [], [], .nil => .nil
  | e :: es, s :: ss, .cons hes hrest => .cons (mono h e s hes) (monoAll h es ss hrest)

end

section

variable {name : String} {value : Value} {hplain : Plain name} {hname : name ∈ kept.names}

theorem denotes_settle (hnew : name ∉ kept.settled) {w s : Value} (h : Denotes kept w s) :
    Denotes (kept.settle name value hplain hname) w s := by
  cases h with
  | self hself => exact .self hself
  | quotation id => exact .quotation id
  | @name g _ hmeaning =>
      refine .name ?_
      show Function.update kept.meaning name (some value) g = _
      rw [Function.update_of_ne, hmeaning]
      rintro rfl
      exact hnew (kept.mem_settled hmeaning)

mutual

theorem settle (hnew : name ∉ kept.settled) : ∀ (e s : Value), Code W kept ρ e s →
    Code W (kept.settle name value hplain hname) ρ e s
  | _, _, .value hself hvw => .value hself hvw
  | _, _, .free hx => .free hx
  | _, _, .bound hx hvw hs => .bound hx hvw (denotes_settle hnew hs)
  | _, _, .quotation hrest => .quotation hrest
  | .list _ items, .list _ items', .list hq hitems =>
      .list hq (settleAll hnew items items' hitems)

theorem settleAll (hnew : name ∉ kept.settled) : ∀ (es ss : List Value),
    Forall₂ (Code W kept ρ) es ss →
    Forall₂ (Code W (kept.settle name value hplain hname) ρ) es ss
  | [], [], .nil => .nil
  | e :: es, s :: ss, .cons hes hrest => .cons (settle hnew e s hes) (settleAll hnew es ss hrest)

end

end

mutual

/-- With nothing bound, expressions that match are opposite each other. -/
theorem of_matches (hρ : ∀ x, ρ x = none) : ∀ (e s : Value), Matches W e s → Code W kept ρ e s
  | .int _, _, h => .value rfl h
  | .float _, _, h => .value rfl h
  | .bool _, _, h => .value rfl h
  | .primitive _, _, h => .value rfl h
  | .closure .., _, h => .value rfl h
  | .lambda .., _, h => .value rfl h
  | .unspecified, _, h => .value rfl h
  | .symbol x, _, .symbol _ => .free (hρ x)
  | .list i items, .list j items', .list _ hitems => by
      cases hq : Textual.isQuotation items with
      | false => exact .list hq (of_matchesAll hρ items items' hitems)
      | true =>
          unfold Textual.isQuotation at hq
          split at hq
          · next name rest =>
              cases eq_of_beq hq
              obtain ⟨_, rest', hhead, hrest, rfl⟩ := List.forall₂_cons_left_iff.1 hitems
              cases hhead with
              | symbol => exact .quotation hrest
              | created hcalls => cases (W.created hcalls).1
          · cases hq
  | .symbol _, _, .created hcalls => by cases (W.created hcalls).1
  | .list _ _, _, .created hcalls => by cases (W.created hcalls).1

theorem of_matchesAll (hρ : ∀ x, ρ x = none) : ∀ (es ss : List Value),
    Forall₂ (Matches W) es ss → Forall₂ (Code W kept ρ) es ss
  | [], [], .nil => .nil
  | e :: es, s :: ss, .cons hes hrest =>
      .cons (of_matches hρ e s hes) (of_matchesAll hρ es ss hrest)

end

theorem denotes_ne_quote {w : Value} {name : String} (h : Denotes kept w (.symbol name)) :
    name ≠ Keyword.quote.name := by
  cases h with
  | self hself => cases hself
  | name hmeaning => exact (kept.plain _ (kept.mem_settled hmeaning)).ne_keyword .quote

/-- What stands opposite a list that is no quotation is none either. -/
theorem isQuotation_eq_false {items items' : List Value}
    (hq : Textual.isQuotation items = false) (h : Forall₂ (Code W kept ρ) items items') :
    Textual.isQuotation items' = false := by
  cases h with
  | nil => rfl
  | @cons e s _ rest' hes _ =>
      cases s with
      | symbol name =>
          cases hes with
          | value hself hvw =>
              rw [hvw.isSelfEvaluating_eq] at hself
              cases hself
          | free _ => exact hq
          | bound _ _ hs => exact beq_eq_false_iff_ne.2 (denotes_ne_quote hs)
      | _ => rfl

end Code

/-! ## Replacing one more parameter -/

namespace Textual

variable {W : Correspondence} {kept : Meanings} {ρ : Locals} {x : String}
  {r v : Value}

/-- An expression for a value mentions no parameter. -/
theorem replace_denotes {w s : Value} (hs : Denotes kept w s) (hx : x ∉ kept.names) :
    replace (.symbol x) r s = pure s := by
  cases hs with
  | self hself =>
      cases w with
      | symbol | list => cases hself
      | _ => exact replace_of_ne (by simp) rfl
  | quotation id => exact replace_quotation id _
  | @name g w hmeaning =>
      refine replace_of_ne ?_ rfl
      rintro ⟨⟩
      exact hx (kept.mem_names _ (kept.mem_settled hmeaning))

mutual

/-- Replacing one more parameter is binding one more. -/
theorem replace_ensures {w : Value} (hvw : Matches W v w) (hr : Denotes kept w r)
    (hx : ρ x = none) (hkept : x ∉ kept.names) : ∀ (e s : Value), Code W kept ρ e s →
    (replace (.symbol x) r s).Ensures (Code W kept (Function.update ρ x (some v)) e)
  | e, s, .value hself hes => by
      have hs : Denotes kept s s := .self (hes.isSelfEvaluating_eq ▸ hself)
      rw [replace_denotes hs hkept]
      exact .pure (.value hself hes)
  | .symbol y, _, .free hy => by
      by_cases h : y = x
      · subst h
        rw [replace_name]
        exact .pure (.bound (Function.update_self ..) hvw hr)
      · rw [replace_of_ne (by simpa using h) rfl]
        exact .pure (.free (by rw [Function.update_of_ne h, hy]))
  | .symbol y, _, .bound hy hyw hs => by
      rw [replace_denotes hs hkept]
      refine .pure (.bound ?_ hyw hs)
      rw [Function.update_of_ne, hy]
      rintro rfl
      rw [hx] at hy
      cases hy
  | _, _, .quotation hrest => by
      rw [replace_quotation]
      exact .pure (.quotation hrest)
  | .list _ items, .list _ items', .list hq hitems => by
      rw [replace_list _ (Code.isQuotation_eq_false hq hitems)]
      exact (replaceAll_ensures hvw hr hx hkept items items' hitems).bind fun _ hreplaced =>
        .list fun _ => .list hq hreplaced

theorem replaceAll_ensures {w : Value} (hvw : Matches W v w) (hr : Denotes kept w r)
    (hx : ρ x = none) (hkept : x ∉ kept.names) : ∀ (es ss : List Value),
    Forall₂ (Code W kept ρ) es ss → (replaceAll (.symbol x) r ss).Ensures
      (Forall₂ (Code W kept (Function.update ρ x (some v))) es)
  | [], [], .nil => .pure .nil
  | e :: es, s :: ss, .cons hes hrest => by
      rw [replaceAll]
      exact (replace_ensures hvw hr hx hkept e s hes).bind fun _ hs =>
        (replaceAll_ensures hvw hr hx hkept es ss hrest).bind fun _ hss => .pure (.cons hs hss)

end

/-! ## Replacing several parameters -/

theorem literal_ensures (w : Value) : (literal w).Ensures (Denotes kept w) := by
  cases w with
  | symbol | list => exact .list fun id => .quotation id
  | _ => exact .pure (.self rfl)

/-- A row of replacements, each by an expression made on the spot, is a row of
bindings. -/
theorem foldlM_replace_ensures (make : Value → Fresh Value) {names : List String}
    {values operands : List Value} {e s : Value} (hnodup : names.Nodup)
    (hnew : ∀ x ∈ names, ρ x = none ∧ x ∉ kept.names) (hlen : names.length = values.length)
    (hmake : Forall₂ (fun v a => (make a).Ensures fun r =>
      ∃ w, Matches W v w ∧ Denotes kept w r) values operands)
    (hes : Code W kept ρ e s) :
    (((names.map Value.symbol).zip operands).foldlM
      (fun tree (pair : Value × Value) => do replace pair.1 (← make pair.2) tree) s).Ensures
      (Code W kept (ρ.bind (names.zip values)) e) := by
  induction hmake generalizing names ρ s with
  | nil =>
      rw [List.zip_nil_right, List.zip_nil_right]
      exact .pure hes
  | @cons v a values operands hva _ ih =>
      cases names with
      | nil => cases hlen
      | cons name names =>
          obtain ⟨hfresh, hnodup⟩ := List.nodup_cons.1 hnodup
          obtain ⟨hname, hkept⟩ := hnew name List.mem_cons_self
          rw [List.map_cons, List.zip_cons_cons, List.foldlM_cons, bind_assoc,
            List.zip_cons_cons, Locals.bind_cons]
          refine hva.bind fun r hr => ?_
          obtain ⟨w, hvw, hwr⟩ := hr
          refine (replace_ensures hvw hwr hname hkept e s hes).bind fun s' hs' => ?_
          -- The names still to be replaced are not bound by replacing this one.
          refine ih hnodup (fun x hx => ?_) (Nat.succ.inj hlen) hs'
          have hne : x ≠ name := by
            rintro rfl
            exact hfresh hx
          rw [Function.update_of_ne hne]
          exact hnew x (List.mem_cons_of_mem _ hx)

theorem instantiate_ensures {names : List String} {args args' : List Value} {e s : Value}
    (hnodup : names.Nodup) (hnew : ∀ x ∈ names, ρ x = none ∧ x ∉ kept.names)
    (hlen : names.length = args.length) (hargs : Forall₂ (Matches W) args args')
    (hes : Code W kept ρ e s) :
    (instantiate (names.map .symbol) args' s).Ensures
      (Code W kept (ρ.bind (names.zip args)) e) :=
  foldlM_replace_ensures literal hnodup hnew hlen
    (hargs.imp fun _ w hvw => (literal_ensures w).imp fun _ hr => ⟨w, hvw, hr⟩) hes

theorem replaceEach_ensures {names : List String} {values exprs : List Value} {e s : Value}
    (hnodup : names.Nodup) (hnew : ∀ x ∈ names, ρ x = none ∧ x ∉ kept.names)
    (hlen : names.length = values.length)
    (hexprs : Forall₂ (fun v r => ∃ w, Matches W v w ∧ Denotes kept w r) values exprs)
    (hes : Code W kept ρ e s) :
    (replaceEach ((names.map Value.symbol).zip exprs) s).Ensures
      (Code W kept (ρ.bind (names.zip values)) e) :=
  foldlM_replace_ensures pure hnodup hnew hlen
    (hexprs.imp fun _ _ h => .pure h) hes

end Textual

end TwinScheme

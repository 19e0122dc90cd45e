import Mathlib
import TwinScheme.Session
import TwinScheme.Proofs.Agreement.Settling

/-!
# The two disciplines agree on hygienic programs

Two fresh sessions with the same limits, one lexical and one textual, are given
the same hygienic forms one after another, and go on after a form that fails.
As long as no form fails in the lexical session for its limit, each form has
corresponding answers: both are values, the same except that a `lambda` value
stands for a closure, or both are errors of one kind.

Fresh sessions have linked memories and each form keeps them linked, possibly
with one more settled name. That is the whole argument; the work is in evaluating
a form.
-/

namespace TwinScheme

open List (Forall₂)

/-! ## Corresponding answers -/

/-- The same value, except that procedures that the lexical session makes as
closures are `lambda` values in the textual one. -/
inductive Value.Resembles : Value → Value → Prop
  | int (n : Int64) : Resembles (.int n) (.int n)
  | float (x : Float) : Resembles (.float x) (.float x)
  | symbol (name : String) : Resembles (.symbol name) (.symbol name)
  | bool (b : Bool) : Resembles (.bool b) (.bool b)
  | primitive (p : Primitive) : Resembles (.primitive p) (.primitive p)
  | unspecified : Resembles .unspecified .unspecified
  | list {i j items items'} : Forall₂ Resembles items items' →
      Resembles (.list i items) (.list j items')
  | procedure {i params body env j params' body'} :
      Resembles (.closure i params body env) (.lambda j params' body')

mutual

/-- Whether a program made a procedure that occurs in a value. -/
def Value.hasCreated : Value → Bool
  | closure .. | lambda .. => true
  | list _ items => hasCreatedAmong items
  | _ => false

/-- Whether a program made a procedure that occurs in one of several values. -/
def Value.hasCreatedAmong : List Value → Bool
  | [] => false
  | v :: vs => v.hasCreated || hasCreatedAmong vs

end

/-- Answers to one form that correspond. -/
inductive Corresponds : Except Error Value → Except Error Value → Prop
  | value {v w} : v.Resembles w → (v.hasCreated = false → ∀ u, v.equal u = w.equal u) →
      Corresponds (.ok v) (.ok w)
  | error {e f} : e.Alike f → Corresponds (.error e) (.error f)

/-- The answers of a session to forms given to it one after another. -/
def Session.answers (s : Session) : List Datum → List (Except Error Value)
  | [] => []
  | d :: ds => (s.evalDatum d).1 :: (s.evalDatum d).2.answers ds

namespace Value

mutual

/-- Without procedures the two cannot be told apart by structure. -/
theorem Resembles.equal_eq : ∀ {v w : Value}, v.Resembles w → v.hasCreated = false →
    ∀ u, v.equal u = w.equal u
  | _, _, .int _, _, _ | _, _, .float _, _, _ | _, _, .symbol _, _, _ | _, _, .bool _, _, _
  | _, _, .primitive _, _, _ | _, _, .unspecified, _, _ => rfl
  | .list _ _, .list _ _, .list hitems, h, u => by
      cases u with
      | list _ us => exact equalAll_eq hitems h us
      | _ => rfl

theorem equalAll_eq : ∀ {vs ws : List Value}, Forall₂ Resembles vs ws →
    hasCreatedAmong vs = false → ∀ us, equalAll vs us = equalAll ws us
  | [], [], .nil, _, us => rfl
  | v :: vs, w :: ws, .cons hvw hrest, h, us => by
      rw [hasCreatedAmong, Bool.or_eq_false_iff] at h
      cases us with
      | nil => rfl
      | cons u us => rw [equalAll, equalAll, hvw.equal_eq h.1, equalAll_eq hrest h.2]

end

end Value

mutual

/-- Corresponding values of linked memories resemble each other. -/
theorem Matches.resembles {W : Correspondence}
    (hcalls : ∀ f g, W.calls f g → f.Resembles g) :
    ∀ {v w : Value}, Matches W v w → v.Resembles w
  | _, _, .int n => .int n
  | _, _, .float x => .float x
  | _, _, .symbol name => .symbol name
  | _, _, .bool b => .bool b
  | _, _, .primitive p => .primitive p
  | _, _, .unspecified => .unspecified
  | .list _ _, .list _ _, .list _ hitems => .list (resemblesAll hcalls hitems)
  | _, _, .created hfg => hcalls _ _ hfg

theorem Matches.resemblesAll {W : Correspondence}
    (hcalls : ∀ f g, W.calls f g → f.Resembles g) :
    ∀ {vs ws : List Value}, Forall₂ (Matches W) vs ws → Forall₂ Value.Resembles vs ws
  | [], [], .nil => .nil
  | _ :: _, _ :: _, .cons hvw hrest => .cons (hvw.resembles hcalls) (resemblesAll hcalls hrest)

end

variable {kept : Meanings} {w : History} {m : Memory Heap} {n : Memory Bindings}

theorem Linked.resembles (h : Linked kept w m n) {v v' : Value} (hv : Matches w.pairs v v') :
    v.Resembles v' := by
  refine hv.resembles fun f g hfg => ?_
  obtain ⟨-, -, -, -⟩ := h.sound f g hfg
  exact .procedure

/-! ## Reading a form -/

mutual

/-- The values of one datum in two memories correspond from then on. -/
theorem Datum.toValue_linked : ∀ (d : Datum) {w : History} {m : Memory Heap}
    {n : Memory Bindings}, Linked kept w m n →
    ∃ v : History, w.Le v ∧ Linked kept v ⟨(d.toValue m.supply).2, m.bound⟩
      ⟨(d.toValue n.supply).2, n.bound⟩ ∧
      Matches v.pairs (d.toValue m.supply).1 (d.toValue n.supply).1
  | .int k, w, _, _, h => ⟨w, .refl w, h, .int k⟩
  | .float x, w, _, _, h => ⟨w, .refl w, h, .float x⟩
  | .symbol name, w, _, _, h => ⟨w, .refl w, h, .symbol name⟩
  | .list items, w, m, n, h => by
      obtain ⟨v, hle, hv, hitems⟩ := Datum.toValues_linked items h
      have hlink := hv.link (t := .list _) (u := .list _) rfl rfl
      refine ⟨_, hle.trans (History.le_link _), hlink, .list (.inr ⟨rfl, rfl⟩) ?_⟩
      exact hitems.imp fun _ _ hab => hab.mono (History.le_link _).pairs

theorem Datum.toValues_linked : ∀ (ds : List Datum) {w : History} {m : Memory Heap}
    {n : Memory Bindings}, Linked kept w m n →
    ∃ v : History, w.Le v ∧ Linked kept v ⟨(Datum.toValues ds m.supply).2, m.bound⟩
      ⟨(Datum.toValues ds n.supply).2, n.bound⟩ ∧
      Forall₂ (Matches v.pairs) (Datum.toValues ds m.supply).1 (Datum.toValues ds n.supply).1
  | [], w, _, _, h => ⟨w, .refl w, h, .nil⟩
  | d :: ds, w, m, n, h => by
      obtain ⟨u, hu, hlinked, hd⟩ := Datum.toValue_linked d h
      obtain ⟨v, hv, hlinked', hds⟩ := Datum.toValues_linked ds hlinked
      exact ⟨v, hu.trans hv, hlinked', .cons (hd.mono hv.pairs) hds⟩

end

/-! ## Fresh sessions -/

/-- What a name means before any definition is nothing that a run made. -/
theorem matches_builtin? (W : Correspondence) (x : String) :
    Option.Rel (Matches W) (builtin? x) (builtin? x) := by
  cases h : builtin? x with
  | none => exact .none
  | some v =>
      refine .some (.of_isAtomic ?_)
      have hatomic : ∀ entry ∈ builtins, entry.2.isAtomic = true := by decide
      by_cases hx : x ∈ builtins.map (·.1)
      · obtain ⟨⟨_, u⟩, hmem, rfl⟩ := List.mem_map.1 hx
        rw [mem_builtins _ hmem] at h
        cases h
        exact hatomic _ hmem
      · rw [builtin?_eq_none hx] at h
        cases h

/-- Before any definition the settled names mean what the primitives do. -/
def Meanings.start (names : List String) : Meanings where
  toKept := .start names
  meaning x := if x ∈ (Kept.start names).settled then builtin? x else none
  isSome_iff x := by
    split
    · next hx => exact iff_of_true (List.mem_filter.1 hx).2 hx
    · next hx => exact iff_of_false Bool.false_ne_true hx
  plain x hx := .of_isSome_builtin? (List.mem_filter.1 hx).2
  mem_names x hx := (List.mem_filter.1 hx).1

/-- Nothing has been made, and nothing has been defined. -/
theorem Linked.start (names : List String) :
    Linked (.start names) ⟨.empty, []⟩ ⟨0, Heap.empty.topLevel.2⟩ ⟨0, ∅⟩ := by
  have hholds : Heap.empty.topLevel.2.Holds (Bindings.empty.insertAll builtins) ∅ [] := ⟨rfl⟩
  have hstore : ∀ x, Textual.find? ∅ x = builtin? x := fun _ => rfl
  refine ⟨fun _ _ h => h.elim, ⟨_, _, hholds⟩, fun x => ?_, fun g v hg => ?_,
    builtin?_keyword .quote, fun _ _ h => h.elim⟩
  · have hfind : Heap.empty.topLevel.2.find? .top x = builtin? x := by
      rw [hholds.find?_top, get?_insertAll_builtins]
      rfl
    show Option.Rel _ (Heap.empty.topLevel.2.find? .top x) _
    rw [hfind, hstore]
    exact matches_builtin? _ x
  · have hmeaning : (if g ∈ (Kept.start names).settled then builtin? g else none) = some v := hg
    rw [hstore]
    split at hmeaning
    · exact hmeaning
    · cases hmeaning

/-! ## Form by form -/

/-- A hygienic form has corresponding answers and leaves linked memories. -/
theorem evalDatum_tracks (limit : Nat) (d : Datum) (hd : d.Hygienic kept.toKept)
    (h : Linked kept w m n) :
    (Bridge.twins kept).Ends w (Bridge.twins kept).value
      (Eval.runFrom m do Scoping.lexical.evaluate limit .top (← Eval.supply d.toValue))
      (Eval.runFrom n do Scoping.textual.evaluate limit () (← Eval.supply d.toValue)) := by
  obtain ⟨v, hle, hv, hmatch⟩ := Datum.toValue_linked d h
  rw [Eval.runFrom_bind, Eval.runFrom_bind, Eval.runFrom_supply, Eval.runFrom_supply]
  have hopposite : Opposite kept .outermost .top (fun _ => none) v
      (d.toValue m.supply).1 (d.toValue n.supply).1 :=
    ⟨.top, hd _, .of_matches (fun _ => rfl) _ _ hmatch⟩
  have hends := (evaluates limit limit (Nat.le_refl limit)).tracks hopposite _ _ hv
  exact hends.weaken hle fun _ _ _ _ hab => hab

/-- So does a form that settles a name, and its name is settled then. -/
theorem evalDatum_settles (limit : Nat) {name : String} (d : Datum)
    (hd : d.Settles kept.toKept name) (h : Linked kept w m n) :
    Settling kept name w
      (Eval.runFrom m do Scoping.lexical.evaluate limit .top (← Eval.supply d.toValue))
      (Eval.runFrom n do Scoping.textual.evaluate limit () (← Eval.supply d.toValue)) := by
  obtain ⟨v, hle, hv, hmatch⟩ := Datum.toValue_linked d h
  rw [Eval.runFrom_bind, Eval.runFrom_bind, Eval.runFrom_supply, Eval.runFrom_supply]
  have hcode : Code v.pairs kept (fun _ => none) (d.toValue m.supply).1 (d.toValue n.supply).1 :=
    .of_matches (fun _ => rfl) _ _ hmatch
  exact ((hd.definite m.supply).settles hd.plain hd.mem hd.new hcode hv).weaken hle

theorem answers_correspond (limits : Limits) {fixed : Kept} {forms : List Datum}
    (hforms : HygienicFrom fixed forms) (hfixed : kept.toKept = fixed) (h : Linked kept w m n)
    (hdeep : ∀ e, .error e ∈ (Session.lexical limits .top m).answers forms → ¬e.IsTooDeep) :
    Forall₂ Corresponds ((Session.lexical limits .top m).answers forms)
      ((Session.textual limits n).answers forms) := by
  induction hforms generalizing kept w m n with
  | nil => exact .nil
  | @form fixed d forms hd _ ih =>
      subst hfixed
      have hends := evalDatum_tracks limits.depth d hd h
      simp only [Session.answers, Session.evalDatum] at hdeep ⊢
      generalize Eval.runFrom m _ = r at hends hdeep ⊢
      generalize Eval.runFrom n _ = r' at hends ⊢
      cases hends with
      | ok _ hlinked hab =>
          refine .cons (.value (hlinked.resembles hab) (hlinked.resembles hab).equal_eq) ?_
          exact ih rfl hlinked fun e he => hdeep e (List.mem_cons_of_mem _ he)
      | error _ hlinked hef =>
          refine .cons (.error hef) ?_
          exact ih rfl hlinked fun e he => hdeep e (List.mem_cons_of_mem _ he)
      | excused he => exact absurd he (hdeep _ List.mem_cons_self)
  | @settle fixed name d forms hd _ ih =>
      subst hfixed
      have hsettling := evalDatum_settles limits.depth d hd h
      simp only [Session.answers, Session.evalDatum] at hdeep ⊢
      generalize Eval.runFrom m _ = r at hsettling hdeep ⊢
      generalize Eval.runFrom n _ = r' at hsettling ⊢
      cases hsettling with
      | settled _ hlinked =>
          refine .cons (.value .unspecified fun _ _ => rfl) ?_
          exact ih rfl hlinked fun e he => hdeep e (List.mem_cons_of_mem _ he)
      | excused he => exact absurd he (hdeep _ List.mem_cons_self)

theorem Corresponds.isTooDeep {answer : Except Error Value} {f : Error}
    (h : Corresponds answer (.error f)) (hf : f.IsTooDeep) :
    ∃ e, answer = .error e ∧ e.IsTooDeep := by
  obtain ⟨limit, context⟩ := hf
  cases h with
  | error hef =>
      cases hef with
      | eval _ c _ => exact ⟨_, rfl, .intro limit c⟩

/-- The two disciplines agree on every hygienic program: as long as the lexical
session does not fail for its limit, the textual one does not either, and every
form has corresponding answers. -/
theorem Session.answers_agree {names : List String} (limits : Limits) {forms : List Datum}
    (hforms : HygienicFrom (.start names) forms)
    (hdeep : ∀ e, .error e ∈ (Session.start .lexical limits).answers forms → ¬e.IsTooDeep) :
    Forall₂ Corresponds ((Session.start .lexical limits).answers forms)
        ((Session.start .textual limits).answers forms) ∧
      ∀ e, .error e ∈ (Session.start .textual limits).answers forms → ¬e.IsTooDeep := by
  have hcorrespond := answers_correspond limits hforms rfl (Linked.start names) hdeep
  refine ⟨hcorrespond, fun f hf hft => ?_⟩
  obtain ⟨answer, hanswer, hpair⟩ : ∃ answer ∈ (Session.start .lexical limits).answers forms,
      Corresponds answer (.error f) := exists_of_mem_right hcorrespond hf
  obtain ⟨e, rfl, he⟩ := hpair.isTooDeep hft
  exact hdeep e hanswer he

/-- `(define seven 7)`, `(define (pick x) (let ((y x) (z seven)) (if y z y)))` and
`(pick 'a)`. -/
def defineAndPick : List Datum :=
  [.list [.symbol "define", .symbol "seven", .int 7],
    .list [.symbol "define", .list [.symbol "pick", .symbol "x"],
      .list [.symbol "let", .list [.list [.symbol "y", .symbol "x"],
          .list [.symbol "z", .symbol "seven"]],
        .list [.symbol "if", .symbol "y", .symbol "z", .symbol "y"]]],
    .list [.symbol "pick", .list [.symbol "quote", .symbol "a"]]]

theorem defineAndPick_hygienic : HygienicFrom (.start ["seven"]) defineAndPick := by
  have hbinder : ∀ x ∈ ["pick", "x", "y", "z"], Binder ["seven"] x := by
    intro x hx
    refine ⟨⟨?_, ?_⟩, ?_⟩ <;> revert x <;> decide
  have hfirst : Datum.Settles (.start ["seven"]) "seven"
      (.list [.symbol "define", .symbol "seven", .int 7]) :=
    ⟨⟨by decide, by decide⟩, by decide, by decide, fun _ => .settled (.value rfl)⟩
  have hlet : ∀ i j k l o, Hygienic ⟨["seven"], ["seven"]⟩ (Scope.outermost.enter ["x"])
      (Keyword.letForm.form i [.list j [.list k [.symbol "y", .symbol "x"],
        .list l [.symbol "z", .symbol "seven"]],
        .list o [.symbol "if", .symbol "y", .symbol "z", .symbol "y"]]) := by
    intro i j k l o
    refine @Hygienic.bind _ _ i j _ [⟨k, "y", .symbol "x"⟩, ⟨l, "z", .symbol "seven"⟩]
      (by simp) ⟨by simp, ?_, by simp [Scope.binders, Scope.enter]⟩ ?_ ?_
    · exact fun x hx => hbinder x (List.mem_cons_of_mem _ (List.mem_cons_of_mem _ hx))
    · exact List.forall_mem_cons.2 ⟨.bound (by decide),
        List.forall_mem_singleton.2 (.name (by decide))⟩
    · refine List.forall_mem_singleton.2 (.ite ?_)
      exact List.forall_mem_cons.2 ⟨.symbol _, List.forall_mem_cons.2
        ⟨.symbol _, List.forall_mem_singleton.2 (.symbol _)⟩⟩
  refine .settle hfirst (.form (fun next => ?_) (.form (fun next => ?_) .nil))
  · refine @Hygienic.defineProcedure _ _ _ "pick" ["x"] _ (hbinder "pick" (by simp)) (by simp)
      ⟨by simp, ?_, by decide⟩ (List.forall_mem_singleton.2 (hlet _ _ _ _ _))
    exact List.forall_mem_singleton.2 (hbinder "x" (by simp))
  · exact .combination (by decide) (List.forall_mem_cons.2
      ⟨.symbol "pick", List.forall_mem_singleton.2 (.quote _ _)⟩)

theorem defineAndPick_answers (b₀ : Bindings) :
    (Session.lexical ⟨100, 20⟩ .top ⟨0, ⟨#[b₀, ∅]⟩⟩).answers defineAndPick =
      [.ok .unspecified, .ok .unspecified, .ok (.int 7)] := by
  cbv
  rw [Scoping.apply_created _ _ _ (by simp)]
  cbv
  rw [Scoping.apply_created _ _ _ (by simp)]
  cbv

theorem defineAndPick_answers_agree : HygienicFrom (.start ["seven"]) defineAndPick ∧
    (∀ e, .error e ∈ (Session.start .lexical ⟨100, 20⟩).answers defineAndPick →
      ¬e.IsTooDeep) ∧
    Forall₂ Corresponds ((Session.start .lexical ⟨100, 20⟩).answers defineAndPick)
      ((Session.start .textual ⟨100, 20⟩).answers defineAndPick) := by
  have hdeep : ∀ e, .error e ∈ (Session.start .lexical ⟨100, 20⟩).answers defineAndPick →
      ¬e.IsTooDeep := by
    have hanswers : (Session.start .lexical ⟨100, 20⟩).answers defineAndPick =
        [.ok .unspecified, .ok .unspecified, .ok (.int 7)] :=
      defineAndPick_answers (Bindings.empty.insertAll builtins)
    rw [hanswers]
    simp
  exact ⟨defineAndPick_hygienic, hdeep,
    (Session.answers_agree ⟨100, 20⟩ defineAndPick_hygienic hdeep).1⟩

end TwinScheme

import TwinScheme.Proofs.Lexical.Foundation
import TwinScheme.Proofs.Session.Lines

/-!
# Names of a session

A name that means something at top level goes on to mean something, whatever
lines are evaluated and however they fail. For the textual discipline there is
nothing more to it than that the definitions grow. For the lexical one the
environments that a program captured are asked about as well: all of them end in
the frame of the primitives, in which the names are those of the table for ever.
-/

namespace TwinScheme

namespace Session

/-- What a name means at top level. -/
def meaning? : Session → String → Option Value
  | lexical _ top memory, x => memory.bound.find? top x
  | textual _ memory, x => Textual.find? memory.bound x

/-- Whether a name means something at top level. -/
def Resolves (s : Session) (x : String) : Prop :=
  s.meaning? x ≠ none

/-- Evaluating a name is asking what it means. -/
theorem evalDatum_symbol {s : Session} (hdepth : s.limits.depth ≠ 0) (x : String) :
    s.evalDatum (.symbol x) =
      match s.meaning? x with
      | some v => (.ok v, s)
      | none => (.error (.unbound x), s) := by
  have hvalue : ∀ next, (Datum.symbol x).toValue next = (.symbol x, next) := fun next => by
    rw [Datum.toValue]
    rfl
  obtain ⟨left, hleft⟩ := Nat.exists_eq_succ_of_ne_zero hdepth
  cases s with
  | lexical limits top m =>
      have hdepth : limits.depth = left + 1 := hleft
      have hrun := Scoping.runFrom_resolve Scoping.lexical m top x
      rw [evalDatum_lexical, hvalue, hdepth, Scoping.evaluate, Scoping.eval_symbol_succ, hrun]
      have hfind : Scoping.lexical.find? m.bound top x = meaning? (.lexical limits top m) x := rfl
      rw [hfind]
      cases meaning? (.lexical limits top m) x <;> rfl
  | textual limits m =>
      have hdepth : limits.depth = left + 1 := hleft
      have hrun := Scoping.runFrom_resolve Scoping.textual m () x
      rw [evalDatum_textual, hvalue, hdepth, Scoping.evaluate, Scoping.eval_symbol_succ, hrun]
      have hfind : Scoping.textual.find? m.bound () x = meaning? (.textual limits m) x := rfl
      rw [hfind]
      cases meaning? (.textual limits m) x <;> rfl

/-- A name means something if and only if it has a value when it is evaluated. -/
theorem resolves_iff_evalDatum {s : Session} (hdepth : s.limits.depth ≠ 0) (x : String) :
    s.Resolves x ↔ ∃ v, s.evalDatum (.symbol x) = (.ok v, s) := by
  rw [Resolves, evalDatum_symbol hdepth]
  cases s.meaning? x with
  | none =>
      refine iff_of_false (fun h => h rfl) ?_
      rintro ⟨v, hv⟩
      cases hv
  | some v => exact iff_of_true (Option.some_ne_none v) ⟨v, rfl⟩

theorem Later.resolves {s t : Session} (h : s.Later t) {x : String} (hx : s.Resolves x) :
    t.Resolves x := by
  cases h with
  | lexical h => exact h.find? hx
  | @textual _ m n h =>
      have hx : (m.bound.get? x).or (builtin? x) ≠ none := hx
      show (n.bound.get? x).or (builtin? x) ≠ none
      rw [ne_eq, Option.or_eq_none_iff, not_and_or] at hx ⊢
      refine hx.imp_left fun hm => ?_
      exact Option.isSome_iff_ne_none.1 (h x (Option.isSome_iff_ne_none.2 hm))

/-! ## New sessions -/

/-- A session that was just started or reset. -/
inductive IsNew : Session → Prop
  | start (strategy : Strategy) (limits : Limits) : IsNew (start strategy limits)
  | reset (s : Session) : IsNew s.reset

/-- What there is in a session, given where the frame of the primitives is and
what values have come out of the session. Only the lexical discipline has frames. -/
def StandsOn (base : Nat) (values : List Value) : Session → Prop
  | lexical _ top m =>
    top.frames = [base + 1, base] ∧ m.bound.Founded base ∧
      top.StandsOn base m.bound.frames.size ∧
      ∀ v ∈ values, v.Closures fun _ _ env => env.StandsOn base m.bound.frames.size
  | textual .. => True

theorem topLevel_standsOn (limits : Limits) (m : Memory Heap) :
    (lexical limits m.bound.topLevel.1 ⟨m.supply, m.bound.topLevel.2⟩).StandsOn
      m.bound.frames.size [] :=
  ⟨m.bound.frames_topLevel, m.bound.topLevel_founded, m.bound.topLevel_standsOn,
    List.forall_mem_nil _⟩

theorem IsNew.standsOn {s : Session} (h : s.IsNew) : ∃ base, s.StandsOn base [] := by
  cases h with
  | start strategy limits =>
      cases strategy with
      | lexical => exact ⟨_, topLevel_standsOn limits ⟨0, Heap.empty⟩⟩
      | textual => exact ⟨0, trivial⟩
  | reset s =>
      cases s with
      | lexical limits top m => exact ⟨_, topLevel_standsOn limits m⟩
      | textual => exact ⟨0, trivial⟩

theorem StandsOn.evalDatum {s : Session} {base : Nat} {values : List Value}
    (h : s.StandsOn base values) (d : Datum) :
    (s.evalDatum d).2.StandsOn base (values ++ (s.evalDatum d).1.toOption.toList) := by
  cases s with
  | lexical limits top m =>
      obtain ⟨hframes, hfounded, htop, hvalues⟩ := h
      obtain ⟨hle, hfounded, hvalue⟩ := Scoping.evaluate_founded limits.depth
        (m := ⟨(d.toValue m.supply).2, m.bound⟩) hfounded htop (d.toValue_closures m.supply).1
      rw [evalDatum_lexical]
      refine ⟨hframes, hfounded, htop.mono hle, fun v hv => ?_⟩
      rcases List.mem_append.1 hv with hv | hv
      · exact (hvalues v hv).mono fun _ _ _ henv => henv.mono hle
      · exact hvalue v (Option.mem_toList.1 hv)
  | textual => exact trivial

theorem StandsOn.after {s : Session} {base : Nat} {values : List Value}
    (h : s.StandsOn base values) (lines : List String) :
    (s.after lines).StandsOn base
      (values ++ (s.replies lines).filterMap fun reply => reply.toOption) := by
  induction lines generalizing s values with
  | nil =>
      rw [replies, List.filterMap_nil, List.append_nil]
      exact h
  | cons line rest ih =>
      have hnext : (s.evalLine line).2.StandsOn base
          (values ++ (s.evalLine line).1.toOption.toList) := by
        rcases s.evalLine_cases line with ⟨fault, hline⟩ | ⟨d, hline⟩
        · rw [hline]
          exact (List.append_nil values).symm ▸ h
        · rw [hline]
          exact h.evalDatum d
      have hrest := ih hnext
      rw [List.append_assoc] at hrest
      rw [replies, List.filterMap_cons, after_cons]
      cases hreply : (s.evalLine line).1.toOption with
      | none => rwa [hreply] at hrest
      | some v => rwa [hreply] at hrest

/-- The names that mean something are those of the primitives and those that are
defined. -/
theorem StandsOn.resolves_iff {s : Session} {base : Nat} {values : List Value}
    (h : s.StandsOn base values) (x : String) :
    s.Resolves x ↔ x ∈ builtinNames ∨ s.definitions.contains x = true := by
  cases s with
  | lexical limits top m =>
      obtain ⟨hframes, hfounded, -, -⟩ := h
      have hinnermost : top.innermost = base + 1 := by
        obtain ⟨innermost, outer⟩ := top
        exact (List.cons.inj hframes).1
      have hdefinitions : (lexical limits top m).definitions = m.bound.frame top.innermost := rfl
      rw [Resolves, meaning?, Heap.find?_ne_none_iff, hframes, hdefinitions, hinnermost,
        ← hfounded.names, or_comm]
      simp only [List.mem_pair, exists_eq_or_imp, exists_eq_left]
  | textual limits m =>
      show (m.bound.get? x).or (builtin? x) ≠ none ↔ _ ∨ (m.bound.get? x).isSome = true
      rw [ne_eq, Option.or_eq_none_iff, not_and_or, Option.isSome_iff_ne_none, builtinNames,
        ← builtin?_ne_none_iff, or_comm]

/-- A lexical session has its frame of the primitives at some place, with exactly
their names, and whatever environment can be got at stands on it. -/
inductive Grounded (base : Nat) (values : List Value) : Session → Prop
  | lexical {limits top m} :
      (∀ x, (m.bound.frame base).contains x = true ↔ x ∈ builtinNames) →
      (∀ env, m.bound.Reaches [top] values env → env.StandsOn base m.bound.frames.size) →
      Grounded base values (.lexical limits top m)
  | textual {limits m} : Grounded base values (.textual limits m)

theorem StandsOn.grounded {s : Session} {base : Nat} {values : List Value}
    (h : s.StandsOn base values) : s.Grounded base values := by
  cases s with
  | lexical limits top m =>
      obtain ⟨-, hfounded, htop, hvalues⟩ := h
      refine .lexical hfounded.names fun env henv => ?_
      exact hfounded.standsOn_of_reaches (List.forall_mem_singleton.2 htop) hvalues henv
  | textual => exact .textual

/-- Whatever lines are given to a session, read or not, evaluated to the end or
not: a name that means something at top level, which is to say that it has a value
there unless no nesting at all is allowed, keeps meaning something, and no
definition is dropped. From its start or a reset on, the names that mean
something are those of the primitives and those defined since; and in a lexical
session there is one frame of the primitives, which has exactly their names,
where every environment ends that can be got at from the top level or from an
answer. -/
theorem names_kept :
    (∀ (s : Session) x, s.limits.depth ≠ 0 →
      (s.Resolves x ↔ ∃ v, s.evalDatum (.symbol x) = (.ok v, s))) ∧
    (∀ (s : Session) lines x, s.Resolves x → (s.after lines).Resolves x) ∧
    (∀ (s : Session) lines x, s.definitions.contains x = true →
      (s.after lines).definitions.contains x = true) ∧
    (∀ s : Session, s.IsNew → ∀ lines x, (s.after lines).Resolves x ↔
      x ∈ builtinNames ∨ (s.after lines).definitions.contains x = true) ∧
    (∀ s : Session, s.IsNew → ∃ base, ∀ lines,
      (s.after lines).Grounded base ((s.replies lines).filterMap fun reply => reply.toOption)) := by
  refine ⟨fun s x hdepth => resolves_iff_evalDatum hdepth x,
    fun s lines x hx => (s.later_after lines).resolves hx,
    fun s lines x hx => (s.later_after lines).definitions x hx, fun s hs lines x => ?_,
    fun s hs => ?_⟩
  · obtain ⟨base, h⟩ := hs.standsOn
    exact (h.after lines).resolves_iff x
  · obtain ⟨base, h⟩ := hs.standsOn
    exact ⟨base, fun lines => (h.after lines).grounded⟩

/-- A definition that two lines would undo if any could, and the primitives of a
session that was just started. -/
theorem names_kept_defined :
    let s : Session := .textual {} ⟨0, Bindings.empty.insert "x" (.int 1)⟩
    let lines := ["(begin (set! x 2) (car x))", "(set! x"]
    s.Resolves "x" ∧ (s.after lines).Resolves "x" ∧
      (s.limits.depth ≠ 0 ∧ ∃ v, s.evalDatum (.symbol "x") = (.ok v, s)) ∧
      (s.definitions.contains "x" = true ∧ (s.after lines).definitions.contains "x" = true) ∧
      (IsNew (start .lexical {}) ∧ ((start .lexical {}).after lines).Resolves "car" ∧
        ∃ base, ((start .lexical {}).after lines).Grounded base
          (((start .lexical {}).replies lines).filterMap fun reply => reply.toOption)) := by
  intro s lines
  have hdefined : s.definitions.contains "x" = true :=
    (Bindings.contains_insert .empty "x" "x" (.int 1)).2 (.inl rfl)
  have hresolves : s.Resolves "x" := by
    show Textual.find? (Bindings.empty.insert "x" (.int 1)) "x" ≠ none
    rw [Textual.find?, Bindings.get?_insert, if_pos rfl]
    exact Option.some_ne_none (Value.int 1)
  have hnew : IsNew (start .lexical {}) := .start .lexical {}
  have hdepth : s.limits.depth ≠ 0 := by decide
  obtain ⟨base, hbase⟩ := names_kept.2.2.2.2 (start .lexical {}) hnew
  exact ⟨hresolves, names_kept.2.1 s lines "x" hresolves,
    ⟨hdepth, (names_kept.1 s "x" hdepth).1 hresolves⟩,
    ⟨hdefined, names_kept.2.2.1 s lines "x" hdefined⟩, hnew,
    (names_kept.2.2.2.1 (start .lexical {}) hnew lines "car").2 (.inl (by decide)), base,
    hbase lines⟩

end Session

end TwinScheme

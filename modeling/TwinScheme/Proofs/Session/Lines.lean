import TwinScheme.Proofs.Evaluator.Growth
import TwinScheme.Session

/-!
# Sessions from line to line

A session is given lines one after another. Whatever they are, it stays a session
of its strategy with its limits, and what is bound in it stays bound: that is what
`Later` says, and every line leads to a later session, a line that cannot be read
to the same one.
-/

namespace TwinScheme.Session

/-- The session after some lines. -/
def after (s : Session) (lines : List String) : Session :=
  lines.foldl (fun s line => (s.evalLine line).2) s

/-- The answers to lines given one after another. -/
def replies (s : Session) : List String → List (Except Error Value)
  | [] => []
  | line :: rest => (s.evalLine line).1 :: (s.evalLine line).2.replies rest

variable {s s' t : Session}

@[simp] theorem after_nil (s : Session) : s.after [] = s := rfl

@[simp] theorem after_cons (s : Session) (line : String) (rest : List String) :
    s.after (line :: rest) = (s.evalLine line).2.after rest := rfl

theorem after_append (s : Session) (lines lines' : List String) :
    s.after (lines ++ lines') = (s.after lines).after lines' :=
  List.foldl_append

/-- A line is read as a datum, or the session stays as it is. -/
theorem evalLine_cases (s : Session) (line : String) :
    (∃ fault, s.evalLine line = (.error (.read fault), s)) ∨
      ∃ d, s.evalLine line = s.evalDatum d := by
  rw [evalLine]
  cases Datum.parse s.limits.nesting line with
  | error fault => exact .inl ⟨fault, rfl⟩
  | ok d => exact .inr ⟨d, rfl⟩

theorem evalDatum_lexical (limits : Limits) (top : Environment) (m : Memory Heap) (d : Datum) :
    (lexical limits top m).evalDatum d =
      ((Eval.runFrom ⟨(d.toValue m.supply).2, m.bound⟩
          (Scoping.lexical.evaluate limits.depth top (d.toValue m.supply).1)).1,
        .lexical limits top (Eval.runFrom ⟨(d.toValue m.supply).2, m.bound⟩
          (Scoping.lexical.evaluate limits.depth top (d.toValue m.supply).1)).2) := by
  rw [evalDatum, Eval.runFrom_bind, Eval.runFrom_supply]

theorem evalDatum_textual (limits : Limits) (m : Memory Bindings) (d : Datum) :
    (textual limits m).evalDatum d =
      ((Eval.runFrom ⟨(d.toValue m.supply).2, m.bound⟩
          (Scoping.textual.evaluate limits.depth () (d.toValue m.supply).1)).1,
        .textual limits (Eval.runFrom ⟨(d.toValue m.supply).2, m.bound⟩
          (Scoping.textual.evaluate limits.depth () (d.toValue m.supply).1)).2) := by
  rw [evalDatum, Eval.runFrom_bind, Eval.runFrom_supply]

/-! ## Later sessions -/

/-- A session that another may have become. -/
inductive Later : Session → Session → Prop
  | lexical {limits top m n} : m.bound.Within n.bound →
      Later (.lexical limits top m) (.lexical limits top n)
  | textual {limits m n} : m.bound.Within n.bound →
      Later (.textual limits m) (.textual limits n)

namespace Later

theorem refl (s : Session) : s.Later s := by
  cases s with
  | lexical => exact .lexical fun _ _ hx => hx
  | textual => exact .textual fun _ hx => hx

theorem trans (h : s.Later s') (h' : s'.Later t) : s.Later t := by
  cases h with
  | lexical h =>
      cases h' with
      | lexical h' => exact .lexical fun i x hx => h' i x (h i x hx)
  | textual h =>
      cases h' with
      | textual h' => exact .textual fun x hx => h' x (h x hx)

theorem strategy_eq (h : s.Later t) : t.strategy = s.strategy := by
  cases h <;> rfl

theorem limits_eq (h : s.Later t) : t.limits = s.limits := by
  cases h <;> rfl

/-- No definition is dropped. -/
theorem definitions (h : s.Later t) : s.definitions.Within t.definitions := by
  cases h with
  | @lexical _ top _ _ h => exact h top.innermost
  | textual h => exact h

end Later

theorem later_evalDatum (s : Session) (d : Datum) : s.Later (s.evalDatum d).2 := by
  cases s with
  | lexical limits top m =>
      have hkeeps := Scoping.lexical_keeps_within.eval limits.depth limits.depth top
        (d.toValue m.supply).1 ⟨(d.toValue m.supply).2, m.bound⟩
      rw [evalDatum_lexical]
      exact .lexical hkeeps
  | textual limits m =>
      have hkeeps := Scoping.textual_keeps_within.eval limits.depth limits.depth ()
        (d.toValue m.supply).1 ⟨(d.toValue m.supply).2, m.bound⟩
      rw [evalDatum_textual]
      exact .textual hkeeps

theorem later_evalLine (s : Session) (line : String) : s.Later (s.evalLine line).2 := by
  rcases s.evalLine_cases line with ⟨fault, h⟩ | ⟨d, h⟩
  · rw [h]
    exact .refl s
  · rw [h]
    exact s.later_evalDatum d

theorem later_after (s : Session) (lines : List String) : s.Later (s.after lines) := by
  induction lines generalizing s with
  | nil => exact .refl s
  | cons line rest ih => exact (s.later_evalLine line).trans (ih _)

@[simp] theorem strategy_after (s : Session) (lines : List String) :
    (s.after lines).strategy = s.strategy :=
  (s.later_after lines).strategy_eq

@[simp] theorem limits_after (s : Session) (lines : List String) :
    (s.after lines).limits = s.limits :=
  (s.later_after lines).limits_eq

@[simp] theorem strategy_start (strategy : Strategy) (limits : Limits) :
    (start strategy limits).strategy = strategy := by
  cases strategy <;> rfl

@[simp] theorem limits_start (strategy : Strategy) (limits : Limits) :
    (start strategy limits).limits = limits := by
  cases strategy <;> rfl

@[simp] theorem strategy_reset (s : Session) : s.reset.strategy = s.strategy := by
  cases s <;> rfl

@[simp] theorem limits_reset (s : Session) : s.reset.limits = s.limits := by
  cases s <;> rfl

/-! ## A definition and two lines after it -/

/-- A session in which `x` is defined, after so many lists were made. -/
def withX (supply : Nat) : Session :=
  .textual {} ⟨supply, Bindings.empty.insert "x" (.bool true)⟩

theorem evalLine_define :
    (start .textual {}).evalLine "(define x #t)" = (.ok .unspecified, withX 1) := by
  have hparse : Datum.parse Datum.defaultNesting "(define x #t)" =
      .ok (.list [.symbol "define", .symbol "x", .symbol "#t"]) := rfl
  have hstart : start .textual {} = .textual {} ⟨0, ∅⟩ := rfl
  rw [hstart, evalLine, limits, hparse]
  rfl

theorem evalLine_x : (withX 1).evalLine "x" = (.ok (.bool true), withX 1) := by
  have hparse : Datum.parse Datum.defaultNesting "x" = .ok (.symbol "x") := rfl
  rw [withX, evalLine, limits, hparse]
  rfl

theorem evalLine_set : (withX 1).evalLine "(set! y x)" = (.error (.unbound "y"), withX 2) := by
  have hparse : Datum.parse Datum.defaultNesting "(set! y x)" =
      .ok (.list [.symbol "set!", .symbol "y", .symbol "x"]) := rfl
  rw [withX, evalLine, limits, hparse]
  rfl

end TwinScheme.Session

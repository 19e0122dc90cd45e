import TwinScheme.Proofs.Reader.Names
import TwinScheme.Proofs.Session.Identity

/-!
# Parameters are distinct

Parameters come from lists that are checked, whatever way a list got there: a `lambda`
that was read, a `let` turned into a call, the signature of a definition, or a list in
which a call has put symbols and numbers where names were. So of all the procedures a
process can get hold of, none has a parameter twice.

Binding arguments one after another relies on it. A parameter that came twice would
be bound to the later argument, and the earlier one would be lost; as it is, the frame
of a call has one binding for each argument.
-/

namespace TwinScheme

namespace Bindings

variable {b : Bindings}

theorem length_place {x : String} {v : Value} {entries : List (String × Value)}
    (h : lookup x entries = none) : (place x v entries).length = entries.length + 1 := by
  induction entries with
  | nil => rfl
  | cons entry rest ih =>
      obtain ⟨y, w⟩ := entry
      rw [lookup] at h
      split at h
      · cases h
      · next hne =>
        rw [place, if_neg hne]
        split
        · rfl
        · rw [List.length_cons, ih h, List.length_cons]

theorem size_insert {x : String} {v : Value} (h : b.get? x = none) :
    (b.insert x v).size = b.size + 1 :=
  length_place h

/-- Names that are new and distinct make a binding each. -/
theorem size_insertAll {pairs : List (String × Value)} (hnodup : (pairs.map (·.1)).Nodup)
    (hnew : ∀ pair ∈ pairs, b.get? pair.1 = none) :
    (b.insertAll pairs).size = b.size + pairs.length := by
  induction pairs generalizing b with
  | nil => rfl
  | cons pair pairs ih =>
      obtain ⟨hfresh, hnodup⟩ := List.nodup_cons.1 hnodup
      obtain ⟨hpair, hpairs⟩ := List.forall_mem_cons.1 hnew
      have hnew' : ∀ pair' ∈ pairs, (b.insert pair.1 pair.2).get? pair'.1 = none := by
        intro pair' hmem
        have hne : pair'.1 ≠ pair.1 := fun heq => hfresh (List.mem_map.2 ⟨pair', hmem, heq⟩)
        rw [get?_insert, if_neg hne]
        exact hpairs pair' hmem
      have hrest := ih hnodup hnew'
      rw [size_insert hpair, Nat.add_assoc, Nat.add_comm 1] at hrest
      exact hrest

/-- Each of some names is bound to the value in its place, and nothing else is bound. -/
structure Pairs (names : List String) (values : List Value) (b : Bindings) : Prop where
  length : names.length = values.length
  size : b.size = values.length
  bound : ∀ (i : Nat) x v, names[i]? = some x → values[i]? = some v → b.get? x = some v
  unbound : ∀ x, x ∉ names → b.get? x = none

end Bindings

/-- The frame of a call has one binding for each argument, if no parameter comes twice. -/
theorem Lexical.frame_pairs {params : List String} {args : List Value} (hnodup : params.Nodup)
    (hlen : params.length = args.length) : (frame params args).Pairs params args := by
  have hnames : (params.zip args).map (·.1) = params := List.map_fst_zip (Nat.le_of_eq hlen)
  have hnodup' : ((params.zip args).map (·.1)).Nodup := hnames.symm ▸ hnodup
  refine ⟨hlen, ?_, fun i x v hx hv => ?_, fun x hx => ?_⟩
  · rw [frame, Bindings.size_insertAll hnodup' fun _ _ => rfl, List.length_zip, hlen, Nat.min_self]
    exact Nat.zero_add _
  · rw [get?_frame]
    have hpair : (params.zip args)[i]? = some (x, v) := List.getElem?_zip_eq_some.2 ⟨hx, hv⟩
    exact Locals.bind_of_mem _ hnodup' (List.mem_of_getElem? hpair)
  · rw [get?_frame, Locals.bind_of_not_mem _ (hnames.symm ▸ hx)]

/-! ## Calls -/

theorem Lexical.runFrom_enter (m : Memory Heap) (id : Identity) (params : List String)
    (body : Value) (env : Environment) (args : List Value) :
    Eval.runFrom m (enter (.closure id params body env) args) =
      if params.length = args.length then
        (.ok (⟨m.bound.frames.size, env.frames⟩, body),
          ⟨m.supply, m.bound.push (frame params args)⟩)
      else (.error (.arity params.length args.length), m) := by
  by_cases hlen : params.length = args.length
  · rw [if_pos hlen, enter, if_neg (not_not_intro hlen)]
    rfl
  · rw [if_neg hlen, enter, if_pos hlen]
    rfl

/-- A call of a closure that has a value has an argument for each parameter, and its
value is that of the body in a new frame with the arguments in it. -/
theorem Scoping.apply_closure_eq_ok {eval : Environment → Value → Eval Heap Value} {id : Identity}
    {params : List String} {body : Value} {env : Environment} {args : List Value}
    {m n : Memory Heap} {v : Value}
    (hcall : Eval.runFrom m (lexical.apply eval (.closure id params body env) args) = (.ok v, n)) :
    params.length = args.length ∧
      Eval.runFrom ⟨m.supply, m.bound.push (Lexical.frame params args)⟩
        (eval ⟨m.bound.frames.size, env.frames⟩ body) = (.ok v, n) := by
  have hcreated : ∀ p, Value.closure id params body env ≠ .primitive p := nofun
  have henter : Eval.runFrom m (lexical.enter (.closure id params body env) args) = _ :=
    Lexical.runFrom_enter m id params body env args
  rw [apply_created _ _ _ hcreated, Eval.runFrom_bind, henter] at hcall
  by_cases hlen : params.length = args.length
  · rw [if_pos hlen] at hcall
    dsimp only at hcall
    rw [Eval.runFrom_tryCatch] at hcall
    refine ⟨hlen, ?_⟩
    -- a failure of the body is not caught, but thrown again with the body as its context
    rcases heq : Eval.runFrom _ (eval _ body) with ⟨_ | w, n'⟩ <;> rw [heq] at hcall <;> cases hcall
    rfl
  · rw [if_neg hlen] at hcall
    cases hcall

namespace Holdings

variable {reads : Datum → Prop} {h : Holdings}

theorem Attained.exists_recorded (hh : Attained reads h) {v : Value} (hv : h.Has v) :
    ∃ L, v.Recorded L := by
  have hreads : ∀ d, reads d → d.Named fun _ => True :=
    fun d _ => d.named_of_forall fun _ => trivial
  obtain ⟨L, -, hL⟩ := hh.recorded (fun _ => trivial) hreads
  exact ⟨L, hL.has hv⟩

/-- Whatever procedure a process has, wherever it has it, no name is there twice among its
parameters. So a call of a closure that has a value has evaluated the body in a new frame
that binds each parameter to the argument in its place, and nothing else. -/
theorem distinct_parameters (hh : Attained reads h) :
    (∀ id params body, h.Has (.lambda id params body) → (Form.symbols params).Nodup) ∧
    ∀ id params body env, h.Has (.closure id params body env) →
      params.Nodup ∧
      ∀ eval args m v n,
        Eval.runFrom m (Scoping.lexical.apply eval (.closure id params body env) args) =
          (.ok v, n) →
        ∃ frame : Bindings, frame.Pairs params args ∧
          Eval.runFrom ⟨m.supply, m.bound.push frame⟩
            (eval ⟨m.bound.frames.size, env.frames⟩ body) = (.ok v, n) := by
  constructor
  · intro id params body hv
    obtain ⟨L, hrecorded⟩ := hh.exists_recorded hv
    cases hrecorded with
    | constant hc => cases hc
    | lambda _ hnodup _ _ => exact hnodup
  · intro id params body env hv
    obtain ⟨L, hrecorded⟩ := hh.exists_recorded hv
    cases hrecorded with
    | constant hc => cases hc
    | closure _ hnodup _ =>
        refine ⟨hnodup, fun eval args m v n hcall => ?_⟩
        obtain ⟨hlen, hbody⟩ := Scoping.apply_closure_eq_ok hcall
        exact ⟨_, Lexical.frame_pairs hnodup hlen, hbody⟩

/-- Under both ways of binding names `(lambda (x y) x)` makes a procedure, and the closure
is called with two arguments. -/
theorem distinct_parameters_two :
    ∃ h, Attained Datum.Readable h ∧
      (∃ id params body, h.Has (.lambda id params body) ∧ (Form.symbols params).Nodup) ∧
      ∃ id params body env v n, h.Has (.closure id params body env) ∧ params.Nodup ∧
        Eval.runFrom ⟨h.supply, h.heap⟩ (Scoping.lexical.apply (Scoping.lexical.eval 8 8)
          (.closure id params body env) [.int 1, .int 2]) = (.ok v, n) ∧
        ∃ frame : Bindings, frame.Pairs params [.int 1, .int 2] ∧
          Eval.runFrom ⟨h.supply, h.heap.push frame⟩
            (Scoping.lexical.eval 8 8 ⟨h.heap.frames.size, env.frames⟩ body) = (.ok v, n) := by
  let top := blank.heap.topLevel.1
  let expr : Value := .list 1 [.symbol "lambda", .list 0 [.symbol "x", .symbol "y"], .symbol "x"]
  let closure : Value := .closure 2 ["x", "y"] (.symbol "x") top
  let lambda : Value := .lambda 3 [.symbol "x", .symbol "y"] (.symbol "x")
  let h₁ := blank.opened.reading
    (.list [.symbol "lambda", .list [.symbol "x", .symbol "y"], .symbol "x"])
  let h₂ := h₁.afterLexical ⟨.answer (.ok closure), [], ⟨3, h₁.heap⟩⟩
  let h₃ := h₂.afterTextual 0 ⟨.answer (.ok lambda), [], ⟨4, ∅⟩⟩
  have hh₁ : Attained Datum.Readable h₁ :=
    (Relation.ReflTransGen.single .opens).tail (.reads ⟨8, "(lambda (x y) x)", rfl⟩)
  have hexpr : h₁.Has expr := .value List.mem_cons_self
  have hlexical : Eval.runFrom ⟨h₁.supply, h₁.heap⟩ (Scoping.lexical.evaluate 8 top expr) =
      (.ok closure, ⟨3, h₁.heap⟩) := rfl
  have hexpr₂ : h₂.Has expr := .value (List.mem_cons_of_mem _ List.mem_cons_self)
  have htextual : Eval.runFrom ⟨h₂.supply, h₂.stores 0⟩ (Scoping.textual.evaluate 8 () expr) =
      (.ok lambda, ⟨4, ∅⟩) := rfl
  have hh₃ : Attained Datum.Readable h₃ :=
    (hh₁.tail ((Step.evaluated hexpr).1 top List.mem_cons_self _ _ hlexical)).tail
      ((Step.evaluated hexpr₂).2 0 _ _ htextual)
  have hlambda : h₃.Has lambda := .value List.mem_cons_self
  have hclosure : h₃.Has closure := .value (List.mem_cons_of_mem _ List.mem_cons_self)
  have hcall : Eval.runFrom ⟨h₃.supply, h₃.heap⟩
      (Scoping.lexical.apply (Scoping.lexical.eval 8 8) closure [.int 1, .int 2]) =
        (.ok (.int 1), ⟨h₃.supply, h₃.heap.push (Lexical.frame ["x", "y"] [.int 1, .int 2])⟩) := by
    have hcreated : ∀ p, closure ≠ .primitive p := nofun
    rw [Scoping.apply_created _ _ _ hcreated]
    rfl
  obtain ⟨hlambdas, hclosures⟩ := distinct_parameters hh₃
  obtain ⟨hnodup, hcalls⟩ := hclosures _ _ _ _ hclosure
  exact ⟨h₃, hh₃, ⟨_, _, _, hlambda, hlambdas _ _ _ hlambda⟩, _, _, _, _, _, _, hclosure, hnodup,
    hcall, hcalls _ _ _ _ _ hcall⟩

end Holdings

end TwinScheme

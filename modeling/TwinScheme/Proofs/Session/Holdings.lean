import Mathlib.Logic.Relation
import TwinScheme.Proofs.Evaluator.Unwinding
import TwinScheme.Proofs.Lexical.Frames
import TwinScheme.Proofs.Textual.Replacement

/-!
# What a process can get hold of

A process opens top-level environments and sets of definitions, reads data, and
evaluates what it has read, in any order, with any limit and under either way of
binding names. Evaluations may fail, and what they had made by then stays. All of it
takes identities from one supply.

What such a process holds is looked at not only between evaluations but after every
step of one. Under the two ways of binding names no value comes from anywhere but
from what was there before, so that all a process ever holds is recorded in one
ledger.
-/

namespace TwinScheme

open Machine

/-! ## The two ways of binding names -/

/-- What is bound in some frame. -/
def Heap.HasValue (h : Heap) (v : Value) : Prop :=
  ∃ i x, (h.frame i).get? x = some v

/-- What is bound. -/
def Bindings.HasValue (b : Bindings) (v : Value) : Prop :=
  ∃ x, b.get? x = some v

theorem isConstant_of_builtin? {x : String} {v : Value} (h : builtin? x = some v) :
    v.isConstant = true := by
  rw [← get?_insertAll_builtins] at h
  rcases of_get?_builtins h with ⟨b, rfl⟩ | ⟨p, rfl⟩ <;> rfl

theorem Error.values_within {p : Value → Prop} {body : Value} {e : Error} (hbody : p body)
    (he : ∀ v ∈ e.values, p v) : ∀ v ∈ (e.within body).values, p v := by
  cases e with
  | eval fault context | type fault context =>
      cases context with
      | some c => exact he
      | none =>
          rw [Error.within]
          split
          · exact he
          · simp only [values, Option.toList_none, List.append_nil] at he
            exact List.forall_mem_append.2 ⟨he, List.forall_mem_singleton.2 hbody⟩
  | _ => exact he

namespace Heap

variable {h : Heap} {u v : Value}

theorem HasValue.of_write {i : Nat} {x : String} (hu : (h.write i x v).HasValue u) :
    u = v ∨ h.HasValue u := by
  obtain ⟨j, y, hget⟩ := hu
  exact (get?_frame_write hget).imp id fun hget => ⟨j, y, hget⟩

theorem HasValue.of_push {b : Bindings} (hu : (h.push b).HasValue u) :
    b.HasValue u ∨ h.HasValue u := by
  obtain ⟨j, y, hget⟩ := hu
  by_cases hj : j = h.frames.size
  · subst hj
    rw [frame_push_self] at hget
    exact .inl ⟨y, hget⟩
  · rw [frame_push_of_ne hj] at hget
    exact .inr ⟨j, y, hget⟩

end Heap

section

variable {L : Ledger}

theorem Lexical.callOfLet_makes {named : List (String × Value)} {body : List Value}
    (hnamed : ∀ pair ∈ named, Value.Recorded L (.symbol pair.1) ∧ pair.2.Recorded L)
    (hbody : ∀ e ∈ body, e.Recorded L) :
    (Lexical.callOfLet named body).Makes L fun L' e => e.Recorded L' := by
  have hparams : ∀ v ∈ named.map (fun pair => Value.symbol pair.1), v.Recorded L := by
    intro v hv
    obtain ⟨pair, hpair, rfl⟩ := List.mem_map.1 hv
    exact (hnamed pair hpair).1
  refine (Fresh.Makes.list hparams).bind fun L₁ params hle₁ hparams => ?_
  refine (Fresh.Makes.form .begin (Value.Recorded.all_mono hbody hle₁)).bind
    fun L₂ begun hle₂ hbegun => ?_
  refine (Fresh.Makes.form .lambda (List.forall_mem_cons.2
    ⟨hparams.mono hle₂, List.forall_mem_singleton.2 hbegun⟩)).bind fun L₃ lambda hle₃ hlambda => ?_
  refine .list (List.forall_mem_cons.2 ⟨hlambda, fun v hv => ?_⟩)
  obtain ⟨pair, hpair, rfl⟩ := List.mem_map.1 hv
  exact (hnamed pair hpair).2.mono ((hle₁.trans hle₂).trans hle₃)

theorem Lexical.enter_keeps {f : Value} {args : List Value} (hf : f.Recorded L)
    (hargs : ∀ a ∈ args, a.Recorded L) :
    Eval.Keeps Heap.HasValue L (Lexical.enter f args) fun L' called => called.2.Recorded L' := by
  unfold Lexical.enter
  split
  · next id params body env =>
    cases hf with
    | constant hc => cases hc
    | closure _ _ hbody =>
        by_cases hlen : params.length ≠ args.length
        · rw [if_pos hlen]
          exact .throw (.refusal (.arity _ _))
        · rw [if_neg hlen]
          intro m hm
          refine .ok (.refl L) ⟨hm.supply, fun u hu => ?_⟩ hbody
          rcases Heap.HasValue.of_push hu with ⟨x, hx⟩ | hu
          · exact hargs u (Lexical.mem_of_get?_frame hx)
          · exact hm.bound u hu
  · exact .throw (.refusal (.type (List.forall_mem_singleton.2 hf)))

theorem Scoping.lexical_keeping : Scoping.lexical.Keeping Heap.HasValue where
  find? h := by
    obtain ⟨i, -, hi⟩ := Heap.exists_of_find? h
    exact .inr ⟨i, _, hi⟩
  define h := h.of_write
  overwrite {b env x v u} h := by
    change (b.overwrite env x v).HasValue u at h
    unfold Heap.overwrite at h
    split at h
    · exact h.of_write
    · exact .inr h
  close hnodup hparams hbody := by
    refine (Form.parameterNames_yields hparams).map ?_
    rintro names rfl L' i hle hentry
    rw [Form.symbols_map_symbol] at hnodup
    exact .closure hentry hnodup (hbody.mono hle)
  expand hpairs hbody := by
    refine (Eval.Keeps.ofExcept (Lexical.binderNames_yields hpairs)).bind
      fun L' named hle hnamed => ?_
    have hnamed' : ∀ pair ∈ named, Value.Recorded L' (.symbol pair.1) ∧ pair.2.Recorded L' :=
      fun pair hpair => ⟨(hnamed pair hpair).1.mono hle, (hnamed pair hpair).2.mono hle⟩
    refine (Eval.Keeps.supply (Lexical.callOfLet_makes hnamed'
      (Value.Recorded.all_mono hbody hle))).bind fun L'' e _ he => ?_
    exact .pure (List.forall_mem_singleton.2 he)
  enter := Lexical.enter_keeps
  leave := Error.values_within

namespace Textual

theorem replaceAll_eq_mapM (name r : Value) (ts : List Value) :
    replaceAll name r ts = ts.mapM (replace name r) := by
  induction ts with
  | nil => rfl
  | cons t ts ih =>
      rw [replaceAll, List.mapM_cons, ih]

theorem replace_makes_of_not_isList {name r t : Value} (hlist : t.isList = false)
    (ht : t.Recorded L) (hr : r.Recorded L) :
    (replace name r t).Makes L fun L' v => v.Recorded L' := by
  rw [replace_of_not_isList name r hlist]
  split
  · exact .pure hr
  · exact .pure ht

/-- What replacing a name makes is made anew. -/
theorem replace_makes {name r t : Value} (ht : t.Recorded L) {L' : Ledger} (hle : L.Le L')
    (hr : r.Recorded L') : (replace name r t).Makes L' fun L'' v => v.Recorded L'' := by
  have ht' := ht.mono hle
  -- the ledger has grown by the time the walk gets to a part of the tree
  induction ht generalizing L' with
  | @constant v hc =>
      refine replace_makes_of_not_isList ?_ ht' hr
      cases v <;> first | rfl | cases hc
  | symbol | closure | lambda => exact replace_makes_of_not_isList rfl ht' hr
  | @list i items _ hitems ih =>
      cases heq : (Value.list i items).equal name with
      | true =>
          rw [replace_of_equal heq]
          exact .pure hr
      | false =>
          cases hq : isQuotation items with
          | true =>
              rw [replace_of_isQuotation heq hq]
              exact .pure ht'
          | false =>
              rw [replace_items heq hq, replaceAll_eq_mapM]
              refine (Fresh.Makes.mapM fun v hv L'' hle' => ?_).bind fun _ _ _ hvs => .list hvs
              have hle'' := hle.trans hle'
              exact ih v hv hle'' (hr.mono hle') ((hitems v hv).mono hle'')

theorem replaceEach_makes {pairs : List (Value × Value)} {t : Value}
    (hpairs : ∀ pair ∈ pairs, pair.2.Recorded L) (ht : t.Recorded L) :
    (replaceEach pairs t).Makes L fun L' v => v.Recorded L' :=
  .foldlM (fun pair hpair _ _ hle hv => replace_makes hv (.refl _) ((hpairs pair hpair).mono hle))
    ht

theorem literal_makes {v : Value} (hv : v.Recorded L) :
    (literal v).Makes L fun L' l => l.Recorded L' := by
  cases hself : v.isSelfEvaluating with
  | true =>
      rw [literal_of_isSelfEvaluating hself]
      exact .pure hv
  | false =>
      have hquote : literal v = Fresh.list [.symbol Keyword.quote.name, v] := by
        cases v with
        | symbol | list => rfl
        | _ => cases hself
      rw [hquote]
      exact .form .quote (List.forall_mem_singleton.2 hv)

theorem instantiate_makes {params args : List Value} {body : Value}
    (hargs : ∀ a ∈ args, a.Recorded L) (hbody : body.Recorded L) :
    (instantiate params args body).Makes L fun L' v => v.Recorded L' := by
  refine .foldlM (fun pair hpair L' v hle hv => ?_) hbody
  have harg : pair.2.Recorded L' := (hargs _ (List.of_mem_zip hpair).2).mono hle
  exact (literal_makes harg).bind fun L'' l hle' hl => replace_makes (hv.mono hle') (.refl _) hl

theorem enter_keeps {f : Value} {args : List Value} (hf : f.Recorded L)
    (hargs : ∀ a ∈ args, a.Recorded L) :
    Eval.Keeps Bindings.HasValue L (Textual.enter f args)
      fun L' called => called.2.Recorded L' := by
  unfold Textual.enter
  split
  · next id params body =>
    cases hf with
    | constant hc => cases hc
    | lambda _ _ _ hbody =>
        by_cases hlen : params.length ≠ args.length
        · rw [if_pos hlen]
          exact .throw (.refusal (.arity _ _))
        · rw [if_neg hlen]
          exact (Eval.Keeps.supply (instantiate_makes hargs hbody)).bind
            fun _ _ _ he => .pure he
  · exact .throw (.refusal (.type (List.forall_mem_singleton.2 hf)))

end Textual

theorem Bindings.HasValue.of_insert {b : Bindings} {x : String} {u v : Value}
    (hu : (b.insert x v).HasValue u) : u = v ∨ b.HasValue u := by
  obtain ⟨y, hget⟩ := hu
  rw [get?_insert] at hget
  split at hget
  · exact .inl (Option.some.inj hget).symm
  · exact .inr ⟨y, hget⟩

theorem Scoping.textual_keeping : Scoping.textual.Keeping Bindings.HasValue where
  find? {b env x v} h := by
    change (b.get? x).or (builtin? x) = some v at h
    rcases Option.or_eq_some_iff.1 h with h | ⟨-, h⟩
    · exact .inr ⟨x, h⟩
    · exact .inl (isConstant_of_builtin? h)
  define h := h.of_insert
  overwrite h := h.of_insert
  close hnodup hparams hbody := .ok fun L' i hle hentry =>
    .lambda hentry hnodup (Value.Recorded.all_mono hparams hle) (hbody.mono hle)
  expand hpairs hbody := .supply (.mapM fun e he L' hle =>
    Textual.replaceEach_makes (fun pair hpair => (hpairs pair hpair).2.mono hle)
      ((hbody e he).mono hle))
  enter := Textual.enter_keeps
  leave _ he := he

end

/-! ## Processes -/

/-- What a process has. -/
structure Holdings where
  /-- The next identity to hand out. -/
  supply : Identity
  heap : Heap
  /-- The sets of definitions, each for evaluations by substitution. -/
  stores : Nat → Bindings
  /-- The top-level environments that were opened. -/
  tops : List Environment
  /-- The values that were read or came up in evaluations. -/
  values : List Value

namespace Holdings

/-- What a process can get hold of: a value, what a name is bound to, and whatever is
inside of something it can get hold of. -/
inductive Has (h : Holdings) : Value → Prop
  | value {v} : v ∈ h.values → Has h v
  | frame {v} : h.heap.HasValue v → Has h v
  | store {i v} : (h.stores i).HasValue v → Has h v
  | item {i items v} : Has h (.list i items) → v ∈ items → Has h v
  | closureBody {i params body env} : Has h (.closure i params body env) → Has h body
  | parameter {i params body v} : Has h (.lambda i params body) → v ∈ params → Has h v
  | lambdaBody {i params body} : Has h (.lambda i params body) → Has h body

/-- What may be asked of an evaluator: to evaluate an expression in some place, or to
call something. -/
inductive Asks {ρ : Type} (h : Holdings) (place : ρ → Prop) : Control ρ → Prop
  | evaluate {env expr} : place env → h.Has expr → Asks h place (.eval 0 env expr)
  | call {f args} : h.Has f → (∀ a ∈ args, h.Has a) → Asks h place (.apply 0 f args)

/-- After a top-level environment has been opened. -/
def opened (h : Holdings) : Holdings where
  supply := h.supply
  heap := h.heap.topLevel.2
  stores := h.stores
  tops := h.heap.topLevel.1 :: h.tops
  values := h.values

/-- After a datum has been read. -/
def reading (h : Holdings) (d : Datum) : Holdings where
  supply := (d.toValue h.supply).2
  heap := h.heap
  stores := h.stores
  tops := h.tops
  values := (d.toValue h.supply).1 :: h.values

/-- After some steps of an evaluation in environments. -/
def afterLexical (h : Holdings) (t : State Heap Environment) : Holdings where
  supply := t.memory.supply
  heap := t.memory.bound
  stores := h.stores
  tops := h.tops
  values := t.values ++ h.values

/-- After some steps of an evaluation by substitution. -/
def afterTextual (h : Holdings) (i : Nat) (t : State Bindings Unit) : Holdings where
  supply := t.memory.supply
  heap := h.heap
  stores := Function.update h.stores i t.memory.bound
  tops := h.tops
  values := t.values ++ h.values

/-- What a process that reads data of some kind does next. It may leave an evaluation
after any number of steps, the last one among them. -/
inductive Step (reads : Datum → Prop) (h : Holdings) : Holdings → Prop
  | opens : Step reads h h.opened
  | reads {d} : reads d → Step reads h (h.reading d)
  | lexical {limit c t} : h.Asks (· ∈ h.tops) c →
      Reaches Scoping.lexical limit ⟨c, [], ⟨h.supply, h.heap⟩⟩ t →
      Step reads h (h.afterLexical t)
  | textual {limit i c t} : h.Asks (fun _ => True) c →
      Reaches Scoping.textual limit ⟨c, [], ⟨h.supply, h.stores i⟩⟩ t →
      Step reads h (h.afterTextual i t)

/-- What an evaluation comes to, value or error, is something a process comes to have. -/
theorem Step.evaluated {reads : Datum → Prop} {h : Holdings} {limit : Nat} {expr : Value}
    (hexpr : h.Has expr) :
    (∀ env ∈ h.tops, ∀ result m,
      Eval.runFrom ⟨h.supply, h.heap⟩ (Scoping.lexical.evaluate limit env expr) = (result, m) →
      Step reads h (h.afterLexical ⟨.answer result, [], m⟩)) ∧
    ∀ i result m,
      Eval.runFrom ⟨h.supply, h.stores i⟩ (Scoping.textual.evaluate limit () expr) = (result, m) →
      Step reads h (h.afterTextual i ⟨.answer result, [], m⟩) := by
  constructor
  · intro env henv result m hruns
    have hreaches := reaches_evaluate Scoping.lexical limit env expr ⟨h.supply, h.heap⟩
    rw [hruns] at hreaches
    exact .lexical (.evaluate henv hexpr) hreaches
  · intro i result m hruns
    have hreaches := reaches_evaluate Scoping.textual limit () expr ⟨h.supply, h.stores i⟩
    rw [hruns] at hreaches
    exact .textual (.evaluate trivial hexpr) hreaches

/-- What a process has at first. -/
def blank : Holdings where
  supply := 0
  heap := .empty
  stores _ := ∅
  tops := []
  values := []

/-- What a process has at some time, it may have at a later time. -/
abbrev Later (reads : Datum → Prop) : Holdings → Holdings → Prop :=
  Relation.ReflTransGen (Step reads)

/-- What a process can come to have. -/
abbrev Attained (reads : Datum → Prop) (h : Holdings) : Prop :=
  Later reads blank h

/-- All that a process can get hold of is recorded. -/
structure Recorded (L : Ledger) (h : Holdings) : Prop where
  supply : L.Below h.supply
  heap : ∀ v, h.heap.HasValue v → v.Recorded L
  stores : ∀ i v, (h.stores i).HasValue v → v.Recorded L
  values : ∀ v ∈ h.values, v.Recorded L

variable {L L' : Ledger} {h : Holdings}

theorem Recorded.has (hh : h.Recorded L) {v : Value} (hv : h.Has v) : v.Recorded L := by
  induction hv with
  | value hv => exact hh.values _ hv
  | frame hv => exact hh.heap _ hv
  | store hv => exact hh.stores _ _ hv
  | item _ hmem ih => exact ih.items _ hmem
  | closureBody _ ih =>
      cases ih with
      | constant hc => cases hc
      | closure _ _ hbody => exact hbody
  | parameter _ hmem ih =>
      cases ih with
      | constant hc => cases hc
      | lambda _ _ hparams _ => exact hparams _ hmem
  | lambdaBody _ ih =>
      cases ih with
      | constant hc => cases hc
      | lambda _ _ _ hbody => exact hbody

theorem Recorded.asks {ρ : Type} {place : ρ → Prop} (hh : h.Recorded L) {c : Control ρ}
    (hc : h.Asks place c) : ∀ v ∈ c.values, v.Recorded L := by
  cases hc with
  | evaluate _ hexpr => exact List.forall_mem_singleton.2 (hh.has hexpr)
  | call hf hargs =>
      exact List.forall_mem_cons.2 ⟨hh.has hf, fun a ha => hh.has (hargs a ha)⟩

theorem Recorded.opened (hh : h.Recorded L) : h.opened.Recorded L where
  supply := hh.supply
  heap v hv := by
    rcases Heap.HasValue.of_push hv with ⟨x, hx⟩ | hv
    · cases hx
    rcases Heap.HasValue.of_push hv with ⟨x, hx⟩ | hv
    · rw [get?_insertAll_builtins] at hx
      exact .constant (isConstant_of_builtin? hx)
    · exact hh.heap v hv
  stores := hh.stores
  values := hh.values

theorem Recorded.reading (hh : h.Recorded L) {d : Datum} (hd : d.Named L.names) :
    ∃ L', L.Le L' ∧ (h.reading d).Recorded L' := by
  obtain ⟨L', hle, hbelow, hv⟩ := Datum.toValue_makes hd h.supply hh.supply
  exact ⟨L', hle, hbelow, fun v hv => (hh.heap v hv).mono hle,
    fun i v hv => (hh.stores i v hv).mono hle,
    List.forall_mem_cons.2 ⟨hv, Value.Recorded.all_mono hh.values hle⟩⟩

theorem Recorded.afterLexical (hh : h.Recorded L) {limit : Nat} {c : Control Environment}
    {t : State Heap Environment} (hc : h.Asks (· ∈ h.tops) c)
    (ht : Reaches Scoping.lexical limit ⟨c, [], ⟨h.supply, h.heap⟩⟩ t) :
    ∃ L', L.Le L' ∧ t.Recorded Heap.HasValue L' ∧ (h.afterLexical t).Recorded L' := by
  obtain ⟨L', hle, ht⟩ := reaches_recorded Scoping.lexical_keeping
    ⟨⟨hh.supply, hh.heap⟩, hh.asks hc, List.forall_mem_nil _⟩ ht
  exact ⟨L', hle, ht, ht.memory.supply, ht.memory.bound,
    fun i v hv => (hh.stores i v hv).mono hle,
    List.forall_mem_append.2 ⟨ht.values, Value.Recorded.all_mono hh.values hle⟩⟩

theorem Recorded.afterTextual (hh : h.Recorded L) {limit i : Nat} {c : Control Unit}
    {t : State Bindings Unit} (hc : h.Asks (fun _ => True) c)
    (ht : Reaches Scoping.textual limit ⟨c, [], ⟨h.supply, h.stores i⟩⟩ t) :
    ∃ L', L.Le L' ∧ (h.afterTextual i t).Recorded L' := by
  obtain ⟨L', hle, ht'⟩ := reaches_recorded Scoping.textual_keeping
    ⟨⟨hh.supply, hh.stores i⟩, hh.asks hc, List.forall_mem_nil _⟩ ht
  refine ⟨L', hle, ht'.memory.supply, fun v hv => (hh.heap v hv).mono hle, fun j v hv => ?_,
    List.forall_mem_append.2 ⟨ht'.values, Value.Recorded.all_mono hh.values hle⟩⟩
  change (Function.update h.stores i t.memory.bound j).HasValue v at hv
  by_cases hj : j = i
  · subst hj
    rw [Function.update_self] at hv
    exact ht'.memory.bound v hv
  · rw [Function.update_of_ne hj] at hv
    exact (hh.stores j v hv).mono hle

variable {reads : Datum → Prop} {h' : Holdings}

theorem Recorded.step (hreads : ∀ d, reads d → d.Named L.names) (hh : h.Recorded L)
    (hstep : Step reads h h') : ∃ L', L.Le L' ∧ h'.Recorded L' := by
  cases hstep with
  | opens => exact ⟨L, .refl L, hh.opened⟩
  | reads hd => exact hh.reading (hreads _ hd)
  | lexical hc ht =>
      obtain ⟨L', hle, -, hh'⟩ := hh.afterLexical hc ht
      exact ⟨L', hle, hh'⟩
  | textual hc ht => exact hh.afterTextual hc ht

/-- What was recorded at some time is recorded at all later times, with all that has
come up since. -/
theorem Recorded.later (hreads : ∀ d, reads d → d.Named L.names) (hh : h.Recorded L)
    (hlater : Later reads h h') : ∃ L', L.Le L' ∧ h'.Recorded L' := by
  induction hlater with
  | refl => exact ⟨L, .refl L, hh⟩
  | tail _ hstep ih =>
      obtain ⟨L', hle, hh'⟩ := ih
      obtain ⟨L'', hle', hh''⟩ := hh'.step (hle.names ▸ hreads) hstep
      exact ⟨L'', hle.trans hle', hh''⟩

/-- Whatever a process does, there is a ledger in which all is recorded. -/
theorem Attained.recorded {names : String → Prop} (hkeyword : ∀ k : Keyword, names k.name)
    (hreads : ∀ d, reads d → d.Named names) (hh : Attained reads h) :
    ∃ L : Ledger, L.names = names ∧ h.Recorded L := by
  -- at first there is nothing to record, and so the ledger may be empty
  have hblank : blank.Recorded ⟨names, hkeyword, fun _ => none⟩ := by
    refine ⟨fun _ _ => rfl, ?_, ?_, List.forall_mem_nil _⟩
    · rintro v ⟨i, x, hget⟩
      cases hget
    · rintro _ v ⟨x, hget⟩
      cases hget
  obtain ⟨L, hle, hL⟩ := hblank.later hreads hh
  exact ⟨L, hle.names, hL⟩

end Holdings

end TwinScheme

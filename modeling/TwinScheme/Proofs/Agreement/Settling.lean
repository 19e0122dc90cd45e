import TwinScheme.Proofs.Agreement.Simulation

/-!
# Definitions that settle a name

A definition that cannot fail gives its name a meaning that the program never
changes again. From then on the name may be copied by `let` like a constant,
because looking it up later gives what looking it up now would.

Settling a name takes nothing away: expressions that were opposite each other
still are, and so are procedures made earlier.
-/

namespace TwinScheme

open List (Forall₂)

variable {kept : Meanings} {w : History} {m : Memory Heap} {n : Memory Bindings}
  {name : String}

/-! ## One more settled name -/

theorem Sound.settle {value : Value} {hplain : Plain name} {hname : name ∈ kept.names}
    (hnew : name ∉ kept.settled) {f g : Value} (h : Sound kept w f g) :
    Sound (kept.settle name value hplain hname) w f g := by
  obtain ⟨hs, hparams, hbody, hcode⟩ := h
  exact .intro hs hparams hbody.settle (hcode.settle hnew)

/-- Both memories after the definition of a name that is settled by it. -/
theorem Linked.settle (hm : Linked kept w m n) {v v' : Value} (hplain : Plain name)
    (hname : name ∈ kept.names) (hnew : name ∉ kept.settled) (hv : Matches w.pairs v v') :
    Linked (kept.settle name v' hplain hname) w
      ⟨m.supply, m.bound.define .top name v⟩ ⟨n.supply, n.bound.insert name v'⟩ := by
  obtain ⟨b₀, b₁, hholds⟩ := hm.frames
  obtain ⟨b₁', hholds', hfind⟩ := hholds.define_top (x := name) (v := v)
  refine hm.insert hplain hv ⟨b₀, b₁', hholds'⟩ hfind (fun g u hg => ?_)
    fun f g hfg => (hm.sound f g hfg).settle hnew
  have hmeaning : Function.update kept.meaning name (some v') g = some u := hg
  rw [Function.update_apply] at hmeaning
  rw [Textual.find?_insert]
  split
  · next hsame => rwa [if_pos hsame] at hmeaning
  · next hother =>
    rw [if_neg hother] at hmeaning
    exact hm.settled g u hmeaning

/-- How two runs of a definition that cannot fail may end. -/
inductive Settling (kept : Meanings) (name : String) (w : History) :
    Except Error Value × Memory Heap → Except Error Value × Memory Bindings → Prop
  | settled {v value hplain hname m n} : w.Le v →
      Linked (kept.settle name value hplain hname) v m n →
      Settling kept name w (.ok .unspecified, m) (.ok .unspecified, n)
  | excused {e m r} : e.IsTooDeep → Settling kept name w (.error e, m) r

theorem Settling.weaken {v : History} (hle : w.Le v) {r : Except Error Value × Memory Heap}
    {r' : Except Error Value × Memory Bindings} (h : Settling kept name v r r') :
    Settling kept name w r r' := by
  cases h with
  | settled hv hlinked => exact .settled (hle.trans hv) hlinked
  | excused he => exact .excused he

/-- A value that is computed without fail settles the name it is given to. -/
theorem define_settles {x : Eval Heap Value} {y : Eval Bindings Value}
    (hxy : (Bridge.twins kept).Tracks w x y (Bridge.twins kept).value)
    (hsure : (Bridge.twins kept).Tracks w x (pure ()) fun _ _ _ => True)
    (hplain : Plain name) (hname : name ∈ kept.names) (hnew : name ∉ kept.settled)
    (hm : Linked kept w m n) :
    Settling kept name w
      (Eval.runFrom m do
        let v ← x
        Eval.rebind fun bound => Scoping.lexical.define bound .top name v
        return .unspecified)
      (Eval.runFrom n do
        let v ← y
        Eval.rebind fun bound => Scoping.textual.define bound () name v
        return .unspecified) := by
  have hboth := hxy m n hm
  have hdone := hsure m n hm
  rw [Eval.runFrom_pure] at hdone
  rw [Eval.runFrom_bind, Eval.runFrom_bind]
  generalize Eval.runFrom m x = r at hboth hdone ⊢
  generalize Eval.runFrom n y = r' at hboth ⊢
  cases hboth with
  | ok hle hlinked hvalue =>
      exact .settled hle (hlinked.settle hplain hname hnew hvalue)
  | error _ _ _ =>
      cases hdone with
      | excused he => exact .excused he
  | excused he => exact .excused he

/-! ## Definite definitions -/

theorem Settled.hygienic {fixed : Kept} {s : Scope} {e : Value} (h : Settled fixed s e) :
    Hygienic fixed s e := by
  cases h with
  | value hself => exact .value hself
  | quotation id datum => exact .quote id [datum]
  | bound _ => exact .symbol _
  | name _ => exact .symbol _

variable {limit : Nat}

theorem form_settles {k : Keyword} {i j : Identity} {operands operands' : List Value}
    {f f' : Form} (hparse : Form.parse k operands = .ok f)
    (hparse' : Form.parse k operands' = .ok f')
    (h : ∀ left, Settling kept name w
      (Eval.runFrom m (Scoping.lexical.evalForm (Scoping.lexical.eval limit left .top) .top f))
      (Eval.runFrom n (Scoping.textual.evalForm (Scoping.textual.eval limit left ()) () f'))) :
    Settling kept name w
      (Eval.runFrom m (Scoping.lexical.evaluate limit .top (k.form i operands)))
      (Eval.runFrom n (Scoping.textual.evaluate limit () (k.form j operands'))) := by
  rw [Scoping.evaluate, Scoping.evaluate, Keyword.form, Keyword.form]
  cases hlimit : limit with
  | zero =>
      rw [Scoping.eval_list_zero, Eval.runFrom_throw]
      exact .excused (.intro _ none)
  | succ left =>
      rw [Scoping.eval_list_succ, Scoping.eval_list_succ,
        Scoping.evalList_form _ _ _ (Form.keyword?_name k),
        Scoping.evalList_form _ _ _ (Form.keyword?_name k), hparse, hparse', ← hlimit]
      exact h left

theorem single_ensures (body : List Value) : (Form.single body).Ensures fun _ => True := by
  match body with
  | [] => exact .list fun _ => trivial
  | [_] => exact .pure trivial
  | _ :: _ :: _ => exact .list fun _ => trivial

/-- A definition that cannot fail settles its name, unless the limit does not
even admit the definition. -/
theorem Definite.settles {e e' : Value} (h : Definite kept.toKept name e) (hplain : Plain name)
    (hname : name ∈ kept.names) (hnew : name ∉ kept.settled)
    (hcode : Code w.pairs kept (fun _ => none) e e') (hm : Linked kept w m n) :
    Settling kept name w (Eval.runFrom m (Scoping.lexical.evaluate limit .top e))
      (Eval.runFrom n (Scoping.textual.evaluate limit () e')) := by
  have hs : InScope kept.names w.calls .outermost .top fun _ => none := .top
  cases h with
  | @settled _ expr hexpr =>
      obtain ⟨j, expr', rfl, hexpr'⟩ := hcode.exists_named (by decide) rfl rfl
      refine form_settles rfl rfl fun left => ?_
      have hxy := (evaluates limit limit (Nat.le_refl left)).tracks
        ⟨hs, hexpr.hygienic, hexpr'⟩
      refine define_settles hxy ?_ hplain hname hnew hm
      exact (settled_tracks hs hexpr hexpr' left).consequence fun _ _ _ _ _ => trivial
  | lambda hparams hyg =>
      obtain ⟨j, expr', rfl, hexpr'⟩ := hcode.exists_named (by decide) rfl rfl
      refine form_settles rfl rfl fun left => ?_
      have hxy := (evaluates limit limit (Nat.le_refl left)).tracks
        ⟨hs, .lambda hparams hyg, hexpr'⟩
      refine define_settles hxy ?_ hplain hname hnew hm
      cases left with
      | zero => exact list_zero_tracks _ _
      | succ left =>
          exact (lambda_tracks_left hparams.nodup _ _ _ left).consequence
            fun _ _ _ _ _ => trivial
  | @procedure _ i params body hbody hparams hyg =>
      have hplains : ∀ x ∈ name :: params, Plain x :=
        List.forall_mem_cons.2 ⟨hplain, hparams.plain⟩
      obtain ⟨j, i', body', rfl, hbody'⟩ :=
        hcode.exists_headed (by decide) rfl hplains fun _ _ => rfl
      refine form_settles (Form.parse_defineProcedure name hparams.nodup i hbody)
        (Form.parse_defineProcedure name hparams.nodup i' (Code.ne_nil hbody' hbody))
        fun left => ?_
      have hsure : (Bridge.twins kept).Tracks w
          (do
            let e ← Eval.supply (Form.single body)
            Scoping.lexical.procedure .top (params.map .symbol) e) (pure ())
          fun _ _ _ => True :=
        (supply_left (single_ensures body) ()).bind_left fun _ e _ _ =>
          (procedure_tracks_left params e).consequence fun _ _ _ _ _ => trivial
      have hsettles := define_settles (procedure_of_tracks hs hparams hyg hbody') hsure
        hplain hname hnew hm
      rwa [bind_assoc, bind_assoc] at hsettles

end TwinScheme

import TwinScheme.Proofs.Evaluator.Ledger
import TwinScheme.Proofs.Evaluator.Termination

/-!
# What a machine holds

A machine in the middle of an evaluation holds values in four places: in what it is
working on, in the frames that wait, in an error on its way out, and in memory. No
step brings in a value that is not recorded. A step that makes something enters it
in the ledger; all other steps move values from one place to another.

The same walk settles where errors come from. Only the step at which an error
arises makes it, and it makes it without a context; every later step hands it past
one frame.
-/

namespace TwinScheme.Machine

variable {σ ρ α : Type}

/-- The values that a frame keeps for later. -/
def Frame.values : Frame ρ → List Value
  | .define .. | .assign .. => []
  | .branch _ _ yes no => yes :: no.toList
  | .clause _ _ body rest => body ++ rest
  | .sequence _ _ rest => rest
  | .operator _ _ operands => operands
  | .operand _ _ f done rest => f :: (done ++ rest)
  | .row _ f done rest => f :: (done ++ rest.flatten)
  | .call body => [body]

/-- The values that are being worked on. -/
def Control.values : Control ρ → List Value
  | .eval _ _ expr => [expr]
  | .sequence _ _ body => body
  | .clauses _ _ rest => rest
  | .operands _ _ f done rest => f :: (done ++ rest)
  | .apply _ f args => f :: args
  | .rows _ f done rest => f :: (done ++ rest.flatten)
  | .answer (.ok v) => [v]
  | .answer (.error e) => e.values

/-- The values in a state, those in memory aside. -/
def State.values (s : State σ ρ) : List Value :=
  s.control.values ++ s.stack.flatMap Frame.values

/-- Whether an error is on its way out. -/
def Control.isFailure : Control ρ → Bool
  | .answer (.error _) => true
  | _ => false

variable (holds : σ → Value → Prop)

/-- All that a state holds is recorded. -/
structure State.Recorded (L : Ledger) (s : State σ ρ) : Prop where
  memory : s.memory.Recorded holds L
  control : ∀ v ∈ s.control.values, v.Recorded L
  stack : ∀ frame ∈ s.stack, ∀ v ∈ frame.values, v.Recorded L

/-- The state after a step: all it holds is recorded by now, and an error in it has
just arisen. -/
def Goes (L : Ledger) (s : State σ ρ) : Prop :=
  ∃ L', L.Le L' ∧ s.Recorded holds L' ∧
    ∀ e, s.control = .answer (.error e) → e.Bare (·.Recorded L')

variable {holds} {S : Scoping σ ρ} {L L' : Ledger} {m : Memory σ} {stack : List (Frame ρ)}

theorem Goes.before {s : State σ ρ} (hle : L.Le L') (h : Goes holds L' s) : Goes holds L s :=
  h.imp fun _ h => ⟨hle.trans h.1, h.2⟩

theorem frames_mono (h : ∀ frame ∈ stack, ∀ v ∈ frame.values, v.Recorded L) (hle : L.Le L') :
    ∀ frame ∈ stack, ∀ v ∈ frame.values, v.Recorded L' :=
  fun frame hframe => Value.Recorded.all_mono (h frame hframe) hle

theorem State.Recorded.values {s : State σ ρ} (h : s.Recorded holds L) :
    ∀ v ∈ s.values, v.Recorded L := by
  refine List.forall_mem_append.2 ⟨h.control, fun v hv => ?_⟩
  obtain ⟨frame, hframe, hv⟩ := List.mem_flatMap.1 hv
  exact h.stack frame hframe v hv

/-! ## Steps -/

section

variable (hS : S.Keeping holds) (hm : m.Recorded holds L)
  (hstack : ∀ frame ∈ stack, ∀ v ∈ frame.values, v.Recorded L) {limit depth : Nat} {env : ρ}

include hm hstack

/-- Values are moved, and nothing else happens. -/
theorem goes_on {c : Control ρ} (hc : ∀ v ∈ c.values, v.Recorded L)
    (hfailure : c.isFailure = false) : Goes holds L ⟨c, stack, m⟩ := by
  refine ⟨L, .refl L, ⟨hm, hc, hstack⟩, fun e he => ?_⟩
  dsimp only at he
  subst he
  cases hfailure

/-- Values are moved, some of them into a frame that is left to wait. -/
theorem goes_under {frame : Frame ρ} {c : Control ρ}
    (hframe : ∀ v ∈ frame.values, v.Recorded L) (hc : ∀ v ∈ c.values, v.Recorded L)
    (hfailure : c.isFailure = false) : Goes holds L ⟨c, frame :: stack, m⟩ :=
  goes_on hm (List.forall_mem_cons.2 ⟨hframe, hstack⟩) hc hfailure

theorem goes_wrong {e : Error} (he : e.Bare (·.Recorded L)) :
    Goes holds L (⟨.answer (.error e), stack, m⟩ : State σ ρ) := by
  refine ⟨L, .refl L, ⟨hm, he.values, hstack⟩, fun e' he' => ?_⟩
  cases he'
  exact he

theorem after_goes {x : Eval σ α} {Q : Ledger → α → Prop} {next : α → Control ρ}
    (hx : x.Keeps holds L Q)
    (hnext : ∀ L' a, Q L' a → ∀ v ∈ (next a).values, v.Recorded L')
    (hfailure : ∀ a, (next a).isFailure = false) : Goes holds L (after x next stack m) := by
  have hends := hx m hm
  unfold after
  generalize Eval.runFrom m x = r at hends
  cases hends with
  | ok hle hm' ha =>
      exact .before hle (goes_on hm' (frames_mono hstack hle) (hnext _ _ ha) (hfailure _))
  | error hle hm' he => exact .before hle (goes_wrong hm' (frames_mono hstack hle) he)

theorem sequence_goes {body : List Value} {t : State σ ρ} (hbody : ∀ v ∈ body, v.Recorded L)
    (hstep : step S limit ⟨.sequence depth env body, stack, m⟩ = some t) : Goes holds L t := by
  unfold step at hstep
  dsimp only at hstep
  split at hstep <;> cases hstep
  · exact goes_wrong hm hstack (.refusal (.eval (List.forall_mem_nil _)))
  · exact goes_on hm hstack hbody rfl
  · next expr rest _ =>
    obtain ⟨hexpr, hrest⟩ := List.forall_mem_cons.1 hbody
    exact goes_under hm hstack hrest (List.forall_mem_singleton.2 hexpr) rfl

theorem clauses_goes {clauses : List Value} {t : State σ ρ}
    (hclauses : ∀ v ∈ clauses, v.Recorded L)
    (hstep : step S limit ⟨.clauses depth env clauses, stack, m⟩ = some t) : Goes holds L t := by
  cases clauses with
  | nil =>
      cases hstep
      exact goes_on hm hstack (List.forall_mem_singleton.2 (.constant rfl)) rfl
  | cons clause rest =>
      obtain ⟨hclause, hrest⟩ := List.forall_mem_cons.1 hclauses
      have hyields := Form.clause_yields (Value.hereditary_recorded L) hclause
      unfold step at hstep
      dsimp only at hstep
      split at hstep
      · next e he =>
        cases hstep
        exact goes_wrong hm hstack (.refusal (hyields.of_eq_error he))
      · next test body hparts =>
        obtain ⟨htest, hbody⟩ := hyields.of_eq_ok hparts
        have hframe : ∀ v ∈ body ++ rest, v.Recorded L := List.forall_mem_append.2 ⟨hbody, hrest⟩
        split at hstep <;> cases hstep
        · exact goes_under hm hstack hframe (List.forall_mem_singleton.2 (.constant rfl)) rfl
        · exact goes_under hm hstack hframe (List.forall_mem_singleton.2 htest) rfl

theorem operands_goes {f : Value} {done rest : List Value} {t : State σ ρ}
    (hvalues : ∀ v ∈ f :: (done ++ rest), v.Recorded L)
    (hstep : step S limit ⟨.operands depth env f done rest, stack, m⟩ = some t) :
    Goes holds L t := by
  obtain ⟨hf, hvalues⟩ := List.forall_mem_cons.1 hvalues
  obtain ⟨hdone, hrest⟩ := List.forall_mem_append.1 hvalues
  cases rest with
  | nil =>
      cases hstep
      exact goes_on hm hstack (List.forall_mem_cons.2 ⟨hf, hdone⟩) rfl
  | cons expr rest =>
      cases hstep
      obtain ⟨hexpr, hrest⟩ := List.forall_mem_cons.1 hrest
      refine goes_under hm hstack ?_ (List.forall_mem_singleton.2 hexpr) rfl
      exact List.forall_mem_cons.2 ⟨hf, List.forall_mem_append.2 ⟨hdone, hrest⟩⟩

theorem rows_goes {f : Value} {done : List Value} {rest : List (List Value)} {t : State σ ρ}
    (hvalues : ∀ v ∈ f :: (done ++ rest.flatten), v.Recorded L)
    (hstep : step S limit ⟨.rows depth f done rest, stack, m⟩ = some t) : Goes holds L t := by
  obtain ⟨hf, hvalues⟩ := List.forall_mem_cons.1 hvalues
  obtain ⟨hdone, hrest⟩ := List.forall_mem_append.1 hvalues
  cases rest with
  | nil =>
      cases hstep
      exact after_goes hm hstack (.list hdone)
        (fun _ _ hv => List.forall_mem_singleton.2 hv) fun _ => rfl
  | cons args rest =>
      cases hstep
      rw [List.flatten_cons] at hrest
      obtain ⟨hargs, hrest⟩ := List.forall_mem_append.1 hrest
      refine goes_under hm hstack ?_ (List.forall_mem_cons.2 ⟨hf, hargs⟩) rfl
      exact List.forall_mem_cons.2 ⟨hf, List.forall_mem_append.2 ⟨hdone, hrest⟩⟩

include hS

theorem enterForm_goes {f : Form} (hf : f.Over (·.Recorded L)) :
    Goes holds L (enterForm S depth env stack m f) := by
  cases f with
  | quote datum => exact goes_on hm hstack (List.forall_mem_singleton.2 hf) rfl
  | define name expr | assign name expr =>
      exact goes_under hm hstack (List.forall_mem_nil _) (List.forall_mem_singleton.2 hf) rfl
  | defineProcedure name params body =>
      obtain ⟨hnodup, hparams, hbody⟩ := hf
      have hframes : ∀ frame ∈ (.define env name :: stack : List (Frame ρ)),
          ∀ v ∈ frame.values, v.Recorded L :=
        List.forall_mem_cons.2 ⟨List.forall_mem_nil _, hstack⟩
      refine after_goes hm hframes
        (Eval.Keeps.bind (.supply (Form.single_makes hbody)) fun L' body hle hbody => ?_)
        (fun L' f hf => List.forall_mem_singleton.2 hf) fun _ => rfl
      refine hS.procedure ?_ ?_ hbody
      · rw [Form.symbols_map_symbol]
        exact hnodup
      · intro v hv
        obtain ⟨x, hx, rfl⟩ := List.mem_map.1 hv
        exact (hparams x hx).mono hle
  | ite test yes no =>
      obtain ⟨htest, hyes, hno⟩ := hf
      refine goes_under hm hstack ?_ (List.forall_mem_singleton.2 htest) rfl
      exact List.forall_mem_cons.2 ⟨hyes, fun v hv => hno v (Option.mem_toList.1 hv)⟩
  | cond clauses => exact goes_on hm hstack hf rfl
  | sequence body => exact goes_on hm hstack hf rfl
  | bind pairs body =>
      exact after_goes hm hstack (hS.expand hf.1 hf.2) (fun _ _ h => h) fun _ => rfl
  | lambda params body =>
      exact after_goes hm hstack (hS.procedure hf.1 hf.2.1 hf.2.2)
        (fun L' f hf => List.forall_mem_singleton.2 hf) fun _ => rfl

theorem enterList_goes {items : List Value} (hitems : ∀ v ∈ items, v.Recorded L) :
    Goes holds L (enterList S depth env stack m items) := by
  cases items with
  | nil => exact goes_wrong hm hstack (.refusal (.eval (List.forall_mem_nil _)))
  | cons head rest =>
      obtain ⟨hhead, hrest⟩ := List.forall_mem_cons.1 hitems
      unfold enterList
      dsimp only
      split
      · next keyword _ =>
        have hparse := Form.parse_yields (Value.hereditary_recorded L) keyword hrest
        split
        · next form hform => exact enterForm_goes hS hm hstack (hparse.of_eq_ok hform)
        · next e he => exact goes_wrong hm hstack (.refusal (hparse.of_eq_error he))
      · exact goes_under hm hstack hrest (List.forall_mem_singleton.2 hhead) rfl

theorem enter_goes {expr : Value} (hexpr : expr.Recorded L) :
    Goes holds L (enter S limit depth env stack m expr) := by
  have hdeep : (Error.eval (.tooDeep limit) none).Bare (·.Recorded L) :=
    .refusal (.eval (List.forall_mem_nil _))
  unfold enter
  split
  · split
    · exact goes_wrong hm hstack hdeep
    · exact after_goes hm hstack (hS.resolve _) (fun _ _ hv => List.forall_mem_singleton.2 hv)
        fun _ => rfl
  · split
    · exact goes_wrong hm hstack hdeep
    · exact enterList_goes hS hm hstack hexpr.items
  · exact goes_on hm hstack (List.forall_mem_singleton.2 hexpr) rfl

theorem enterCall_goes {f : Value} {args : List Value} (hf : f.Recorded L)
    (hargs : ∀ a ∈ args, a.Recorded L) : Goes holds L (enterCall S depth stack m f args) := by
  by_cases hprimitive : ∃ q, f = .primitive q
  · obtain ⟨q, rfl⟩ := hprimitive
    have hcall := q.call_yields (Value.hereditary_recorded L) hargs
    rw [enterCall]
    split
    · next e he => exact goes_wrong hm hstack (.refusal (hcall.of_eq_error he))
    · next v hv => exact goes_on hm hstack (List.forall_mem_singleton.2 (hcall.of_eq_ok hv)) rfl
    · next items hitems =>
      exact after_goes hm hstack (.list (hcall.of_eq_ok hitems))
        (fun _ _ hv => List.forall_mem_singleton.2 hv) fun _ => rfl
    · next g calls hcalls =>
      obtain ⟨hg, hcalls⟩ := hcall.of_eq_ok hcalls
      refine goes_on hm hstack (List.forall_mem_cons.2 ⟨hg, fun v hv => ?_⟩) rfl
      obtain ⟨row, hrow, hv⟩ := List.mem_flatten.1 hv
      exact hcalls row hrow v hv
  · rw [enterCall_created fun q hq => hprimitive ⟨q, hq⟩]
    have hends := hS.enter hf hargs m hm
    generalize Eval.runFrom m (S.enter _ _) = r at hends
    cases hends with
    | ok hle hm' hbody =>
        have hcall := List.forall_mem_singleton.2 hbody
        exact .before hle (goes_under hm' (frames_mono hstack hle) hcall hcall rfl)
    | error hle hm' he => exact .before hle (goes_wrong hm' (frames_mono hstack hle) he)

theorem resume_goes {v : Value} {frame : Frame ρ} (hv : v.Recorded L)
    (hframe : ∀ u ∈ frame.values, u.Recorded L) : Goes holds L (resume S v stack m frame) := by
  have hunspecified : ∀ u ∈ [Value.unspecified], u.Recorded L :=
    List.forall_mem_singleton.2 (.constant rfl)
  have hdone : ∀ {f : Value} {done rest : List Value}, (∀ u ∈ f :: (done ++ rest), u.Recorded L) →
      ∀ u ∈ f :: (done ++ [v] ++ rest), u.Recorded L := by
    intro f done rest h
    obtain ⟨hf, h⟩ := List.forall_mem_cons.1 h
    obtain ⟨hdone, hrest⟩ := List.forall_mem_append.1 h
    exact List.forall_mem_cons.2 ⟨hf, List.forall_mem_append.2
      ⟨List.forall_mem_append.2 ⟨hdone, List.forall_mem_singleton.2 hv⟩, hrest⟩⟩
  cases frame with
  | define env name =>
      rw [resume]
      exact after_goes hm hstack (.rebind hv fun _ _ => hS.define)
        (fun _ _ _ => List.forall_mem_singleton.2 (.constant rfl)) fun _ => rfl
  | assign env name =>
      rw [resume]
      exact after_goes hm hstack (hS.assign name hv)
        (fun _ _ _ => List.forall_mem_singleton.2 (.constant rfl)) fun _ => rfl
  | branch depth env yes no =>
      obtain ⟨hyes, hno⟩ := List.forall_mem_cons.1 hframe
      unfold resume
      dsimp only
      split
      · exact goes_on hm hstack (List.forall_mem_singleton.2 hyes) rfl
      · cases no with
        | some no => exact goes_on hm hstack hno rfl
        | none => exact goes_on hm hstack hunspecified rfl
  | clause depth env body rest =>
      obtain ⟨hbody, hrest⟩ := List.forall_mem_append.1 hframe
      unfold resume
      dsimp only
      split
      · split
        · exact goes_on hm hstack (List.forall_mem_singleton.2 hv) rfl
        · exact goes_on hm hstack hbody rfl
      · exact goes_on hm hstack hrest rfl
  | sequence depth env rest => exact goes_on hm hstack hframe rfl
  | operator depth env operands =>
      exact goes_on hm hstack (List.forall_mem_cons.2 ⟨hv, hframe⟩) rfl
  | operand depth env f done rest => exact goes_on hm hstack (hdone hframe) rfl
  | row depth f done rest => exact goes_on hm hstack (hdone hframe) rfl
  | call body => exact goes_on hm hstack (List.forall_mem_singleton.2 hv) rfl

end

/-- What one step does, unless an error is on its way out. -/
theorem step_goes (hS : S.Keeping holds) {limit : Nat} {s t : State σ ρ}
    (hs : s.Recorded holds L) (hrun : s.control.isFailure = false)
    (hstep : step S limit s = some t) : Goes holds L t := by
  obtain ⟨c, stack, m⟩ := s
  obtain ⟨hm, hc, hstack⟩ := hs
  dsimp only at hm hc hstack hrun
  cases c with
  | eval depth env expr =>
      cases hstep
      exact enter_goes hS hm hstack (List.forall_mem_singleton.1 hc)
  | sequence depth env body => exact sequence_goes hm hstack hc hstep
  | clauses depth env clauses => exact clauses_goes hm hstack hc hstep
  | operands depth env f done rest => exact operands_goes hm hstack hc hstep
  | apply depth f args =>
      cases hstep
      obtain ⟨hf, hargs⟩ := List.forall_mem_cons.1 hc
      exact enterCall_goes hS hm hstack hf hargs
  | rows depth f done rest => exact rows_goes hm hstack hc hstep
  | answer result =>
      cases result with
      | error e => cases hrun
      | ok v =>
          -- a machine with an answer that nothing waits for takes no step
          cases stack with
          | nil => cases hstep
          | cons frame stack =>
              cases hstep
              obtain ⟨hframe, hstack⟩ := List.forall_mem_cons.1 hstack
              exact resume_goes hS hm hstack (List.forall_mem_singleton.1 hc) hframe

/-- An error is handed past one frame. -/
theorem step_failure {limit : Nat} {s t : State σ ρ} (hfailure : s.control.isFailure = true)
    (hstep : step S limit s = some t) :
    ∃ e frame rest, s = ⟨.answer (.error e), frame :: rest, s.memory⟩ ∧
      t = ⟨.answer (.error (pass S frame e)), rest, s.memory⟩ := by
  obtain ⟨c, stack, m⟩ := s
  cases c with
  | answer result =>
      cases result with
      | ok v => cases hfailure
      | error e =>
          cases stack with
          | nil => cases hstep
          | cons frame rest =>
              cases hstep
              exact ⟨e, frame, rest, rfl, rfl⟩
  | _ => cases hfailure

/-! ## Runs -/

theorem step_recorded (hS : S.Keeping holds) {limit : Nat} {s t : State σ ρ}
    (hs : s.Recorded holds L) (hstep : step S limit s = some t) :
    ∃ L', L.Le L' ∧ t.Recorded holds L' := by
  cases hrun : s.control.isFailure with
  | false =>
      obtain ⟨L', hle, ht, -⟩ := step_goes hS hs hrun hstep
      exact ⟨L', hle, ht⟩
  | true =>
      obtain ⟨e, frame, rest, heq, rfl⟩ := step_failure hrun hstep
      rw [heq] at hs
      obtain ⟨hm, he, hstack⟩ := hs
      obtain ⟨hframe, hrest⟩ := List.forall_mem_cons.1 hstack
      refine ⟨L, .refl L, hm, ?_, hrest⟩
      cases frame with
      | call body => exact hS.leave (List.forall_mem_singleton.1 hframe) he
      | _ => exact he

/-- Whatever a machine holds is recorded if it was at the start. -/
theorem reaches_recorded (hS : S.Keeping holds) {limit : Nat} {s t : State σ ρ}
    (hs : s.Recorded holds L) (h : Reaches S limit s t) :
    ∃ L', L.Le L' ∧ t.Recorded holds L' := by
  obtain ⟨n, hn⟩ := h
  induction n generalizing s L with
  | zero =>
      cases hn
      exact ⟨L, .refl L, hs⟩
  | succ n ih =>
      obtain ⟨s', hstep, hn⟩ := Option.bind_eq_some_iff.1 hn
      obtain ⟨L', hle, hs'⟩ := step_recorded hS hs hstep
      obtain ⟨L'', hle', ht⟩ := ih hs' hn
      exact ⟨L'', hle.trans hle', ht⟩

end TwinScheme.Machine

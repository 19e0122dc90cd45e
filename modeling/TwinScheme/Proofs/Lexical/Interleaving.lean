import TwinScheme.Proofs.Lexical.Footprint
import TwinScheme.Proofs.Lexical.Parallel

/-!
# Environments that do not disturb each other

Several clients share one heap. Each makes an environment of its own and has
expressions evaluated in it and procedures called, in any order between them;
what one client got as an answer it may use in later requests, and no client
uses what another got. Then every client gets the answers that it would get if
no other client were there (`Table.answers_alone`).

The reason is confinement: a run writes to frames that it can get at and to
those that it makes. What a client can get at are the frames of its own
environment, the frames of its own calls, and nothing else, for ever. So the
frames that belong to the clients stay apart, and each client's frames stay
linked to those of a run in which the client is alone: its own turns move both
on in lockstep, and the turns of others touch neither.

The answers are the same but for what no program can see: identities and the
numbers of frames.
-/

namespace TwinScheme

open List (Forall₂)

/-! ## Clients -/

/-- What came of a request. -/
abbrev Answer := Except Error Value

/-- The value of an earlier answer. -/
def Answer.valueAt (answers : List Answer) (k : Nat) : Value :=
  match answers[k]? with
  | some (.ok v) => v
  | _ => .unspecified

/-- An expression of a client: what is read, with earlier answers in it. -/
inductive Template where
  | datum (d : Datum)
  | answer (k : Nat)
  | list (items : List Template)

mutual

/-- The expression, given the answers so far. -/
def Template.toValue (answers : List Answer) : Template → Fresh Value
  | .datum d => d.toValue
  | .answer k => return Answer.valueAt answers k
  | .list items => do Fresh.list (← Template.toValues answers items)

def Template.toValues (answers : List Answer) : List Template → Fresh (List Value)
  | [] => return []
  | t :: ts => do return (← t.toValue answers) :: (← Template.toValues answers ts)

end

/-- What a client may ask for: that an expression is evaluated in its environment,
or that a procedure is called, in either case within a limit on the nesting. -/
inductive Request where
  | evaluate (limit : Nat) (expr : Template)
  | call (limit : Nat) (f : Template) (args : List Template)

def Request.run (env : Environment) (answers : List Answer) : Request → Eval Heap Value
  | .evaluate limit expr => do
    Scoping.lexical.evaluate limit env (← Eval.supply (expr.toValue answers))
  | .call limit f args => do
    let f ← Eval.supply (f.toValue answers)
    let args ← Eval.supply (Template.toValues answers args)
    Scoping.lexical.applyWithin limit f args

/-- What happens at a time: a client makes its environment, or asks for something. -/
inductive Turn where
  | create (who : Nat)
  | ask (who : Nat) (request : Request)

/-- The client whose turn it is. -/
def Turn.who : Turn → Nat
  | create who | ask who _ => who

/-- Clients with their environments and the answers they got, and the memory that
they share. -/
structure Table where
  env : Nat → Option Environment
  answers : Nat → List Answer
  memory : Memory Heap

namespace Table

/-- No client has made an environment. -/
def start (m : Memory Heap) : Table :=
  ⟨fun _ => none, fun _ => [], m⟩

/-- Takes a turn. A client makes one environment, and asks for nothing before. -/
def turn (t : Table) : Turn → Table
  | .create who =>
    match t.env who with
    | some _ => t
    | none =>
      let (env, heap) := t.memory.bound.topLevel
      ⟨Function.update t.env who (some env), t.answers, ⟨t.memory.supply, heap⟩⟩
  | .ask who request =>
    match t.env who with
    | some env =>
      let (answer, memory) := Eval.runFrom t.memory (request.run env (t.answers who))
      ⟨t.env, Function.update t.answers who (t.answers who ++ [answer]), memory⟩
    | none => t

section

variable {t : Table} {who : Nat}

theorem turn_create_of_some {env : Environment} (h : t.env who = some env) :
    t.turn (.create who) = t := by
  rw [turn, h]

theorem turn_create_of_none (h : t.env who = none) : t.turn (.create who) =
    ⟨Function.update t.env who (some t.memory.bound.topLevel.1), t.answers,
      ⟨t.memory.supply, t.memory.bound.topLevel.2⟩⟩ := by
  rw [turn, h]

theorem turn_ask_of_some {env : Environment} (h : t.env who = some env) (request : Request) :
    t.turn (.ask who request) =
      ⟨t.env, Function.update t.answers who (t.answers who ++
        [(Eval.runFrom t.memory (request.run env (t.answers who))).1]),
        (Eval.runFrom t.memory (request.run env (t.answers who))).2⟩ := by
  rw [turn, h]

theorem turn_ask_of_none (h : t.env who = none) (request : Request) :
    t.turn (.ask who request) = t := by
  rw [turn, h]

end

/-- Takes several turns. -/
def play (t : Table) (turns : List Turn) : Table :=
  turns.foldl turn t

end Table

/-! ## The same answers -/

/-- Procedures with the same parameters and bodies that look alike. -/
inductive Value.Copies : Value → Value → Prop
  | closure {i j params body body' env env'} : body.Like id body' →
      Copies (.closure i params body env) (.closure j params body' env')
  | lambda {i j params body} : Copies (.lambda i params body) (.lambda j params body)

/-- Answers that are the same, given which identities and which procedures belong
together. -/
inductive Answer.Same (W : Correspondence) : Answer → Answer → Prop
  | ok {v v'} : Matches W v v' → Same W (.ok v) (.ok v')
  | error {e e' : Error} : e.Same e' → Same W (.error e) (.error e')

/-- Rows of answers that are the same, but for identities and frames. -/
def SameAnswers (as bs : List Answer) : Prop :=
  ∃ W : Correspondence, (∀ f g, W.calls f g → f.Copies g) ∧ Forall₂ (Answer.Same W) as bs

/-! ## A client beside itself -/

namespace Renaming

/-- No name is renamed. -/
def identity : Renaming where
  names := Equiv.refl String
  parameter := ""
  keyword _ := rfl
  otherwise := rfl

/-- Runs of one client from memories that have other things in them. The first may
touch the frames that belong to the client, and new ones. -/
def apart (w : identity.World) (m : Memory Heap) : identity.Terms where
  error := Error.Same
  error_refl := .refl
  raised h := h.same
  within h hb := h.within hb
  sync := False
  start := m
  own i := w.frames i ≠ none ∨ m.bound.frames.size ≤ i

theorem identity_rename (μ : Mode) : identity.rename μ = id := by
  cases μ <;> rfl

theorem World.copies {w : identity.World} {f g : Value} (h : w.pairs.calls f g) : f.Copies g := by
  cases w.sound h with
  | closure k _ _ _ hbody =>
      rw [identity_rename, List.map_id]
      exact .closure (hbody.like World.like)
  | lambda => exact .lambda

section

variable {w : identity.World} {T : identity.Terms}

theorem valueAt_matches {W : Correspondence} {as bs : List Answer}
    (h : Forall₂ (Answer.Same W) as bs) (k : Nat) :
    Matches W (Answer.valueAt as k) (Answer.valueAt bs k) := by
  induction h generalizing k with
  | nil => exact .unspecified
  | cons hab _ ih =>
      cases k with
      | zero =>
          cases hab with
          | ok hv => exact hv
          | error => exact .unspecified
      | succ k => exact ih k

theorem same_mono {V W : Correspondence} (hle : V.Le W) {as bs : List Answer}
    (h : Forall₂ (Answer.Same V) as bs) : Forall₂ (Answer.Same W) as bs := by
  refine h.imp fun a b hab => ?_
  cases hab with
  | ok hv => exact .ok (hv.mono hle)
  | error he => exact .error he

mutual

/-- The expressions of a client in the two runs. -/
theorem template_tracks {as bs : List Answer} : ∀ (t : Template) (w : identity.World),
    Forall₂ (Answer.Same w.pairs) as bs →
    T.lockstep.Tracks w (Eval.supply (t.toValue as)) (Eval.supply (t.toValue bs)) T.lockstep.value
  | .datum d, w, _ => toValue_tracks d w
  | .answer k, _, h => .pure (valueAt_matches h k)
  | .list items, w, h => (templates_tracks items w h).bind fun _ _ _ _ hvs => list_tracks hvs

theorem templates_tracks {as bs : List Answer} : ∀ (ts : List Template) (w : identity.World),
    Forall₂ (Answer.Same w.pairs) as bs →
    T.lockstep.Tracks w (Eval.supply (Template.toValues as ts))
      (Eval.supply (Template.toValues bs ts)) fun v => Forall₂ (Matches v.pairs)
  | [], _, _ => .pure .nil
  | t :: ts, w, h => (template_tracks t w h).bind fun v _ _ hv hab =>
      (templates_tracks ts v (same_mono hv.pairs h)).bind fun _ _ _ hu habs =>
        .pure (.cons (hab.mono hu.pairs) habs)

end

/-- A request of a client in the two runs. -/
theorem request_tracks {env env' : Environment} {as bs : List Answer}
    (hchains : Chains w.frames .outside env.frames env'.frames)
    (h : Forall₂ (Answer.Same w.pairs) as bs) (request : Request) :
    T.lockstep.Tracks w (request.run env as) (request.run env' bs) T.lockstep.value := by
  have heval : ∀ limit, T.lockstep.Evaluates (Scoping.lexical.eval limit limit)
      (Scoping.lexical.eval limit limit) :=
    fun limit => Lockstep.eval_tracks Terms.lockstep_lawful limit limit
  cases request with
  | evaluate limit expr =>
      refine .bind (template_tracks expr w h) fun v e e' hv he => ?_
      exact heval limit ⟨.outside, hchains.mono hv.frames, Code.of_matches e e' he _⟩
  | call limit f args =>
      refine .bind (template_tracks f w h) fun v f f' hv hf => ?_
      refine .bind (templates_tracks args v (same_mono hv.pairs h)) fun u as bs hu hargs => ?_
      exact Lockstep.apply_tracks Terms.lockstep_lawful (heval limit) (hf.mono hu.pairs) hargs

/-- The outermost frames of two runs. -/
theorem builtins_rel {W : Correspondence} (a : String) :
    Option.Rel (Matches W) ((Bindings.empty.insertAll builtins).get? a)
      ((Bindings.empty.insertAll builtins).get? (identity.rename Kind.plain.mode a)) := by
  rw [identity_rename]
  show Option.Rel _ ((Bindings.empty.insertAll builtins).get? a)
    ((Bindings.empty.insertAll builtins).get? a)
  cases hv : (Bindings.empty.insertAll builtins).get? a with
  | none => exact .none
  | some v =>
      rcases of_get?_builtins hv with ⟨b, rfl⟩ | ⟨p, rfl⟩
      · exact .some (.bool b)
      · exact .some (.primitive p)

/-- A client makes its environment. -/
theorem topLevel_linked {m n : Memory Heap} (h : Linked T w m n) :
    ∃ v : identity.World, w.Le v ∧
      Linked T v ⟨m.supply, m.bound.topLevel.2⟩ ⟨n.supply, n.bound.topLevel.2⟩ ∧
      Chains v.frames .outside m.bound.topLevel.1.frames n.bound.topLevel.1.frames := by
  have houter := h.push (k := .plain) builtins_rel nofun
  have hempty : ∀ a, Option.Rel (Matches w.pairs) ((∅ : Bindings).get? a)
      ((∅ : Bindings).get? (identity.rename Kind.plain.mode a)) := fun _ => .none
  have hinner := houter.push (k := .plain) hempty nofun
  have hle := World.le_extend (k := .plain) (j := n.bound.frames.size) h.frames_size
  have hle' := World.le_extend (k := .plain)
    (j := (n.bound.push (Bindings.empty.insertAll builtins)).frames.size) houter.frames_size
  refine ⟨_, hle.trans hle', hinner, .plain ?_ (.plain (hle'.frames _ _ ?_) .nil)⟩
  · rw [World.frames_extend]
    exact if_pos rfl
  · rw [World.frames_extend]
    exact if_pos rfl

end

/-- A client's answer in the two runs. -/
theorem exists_same_of_ends {u v : identity.World} {k : Memory Heap}
    {r r' : Except Error Value × Memory Heap}
    (h : (apart u k).lockstep.Ends v (apart u k).lockstep.value r r') :
    ∃ v' : identity.World, v.Le v' ∧ Linked (apart u k) v' r.2 r'.2 ∧
      Answer.Same v'.pairs r.1 r'.1 := by
  cases h with
  | ok hle hlinked hab => exact ⟨_, hle, hlinked, .ok hab⟩
  | error hle hlinked he => exact ⟨_, hle, hlinked, .error he⟩
  | excused he => exact he.elim

/-- What others do with the first memory leaves a client's frames alone. -/
theorem Linked.elsewhere {v w : identity.World} {k m m' n : Memory Heap}
    (h : Linked (apart v k) w m n) (hsupply : m.supply ≤ m'.supply)
    (hsize : m.bound.frames.size ≤ m'.bound.frames.size)
    (hframes : ∀ i, w.frames i ≠ none → m'.bound.frame i = m.bound.frame i) :
    Linked (apart w m') w m' n where
  tags htu := (h.tags htu).imp_right fun hlt => ⟨Nat.lt_of_lt_of_le hlt.1 hsupply, hlt.2⟩
  within hi := ⟨Nat.lt_of_lt_of_le (h.within hi).1 hsize, (h.within hi).2⟩
  unique := h.unique
  bindings {i k j} hi a := by
    rw [hframes i (by rw [hi]; nofun)]
    exact h.bindings hi a
  parameter {i j} hi := by
    rw [hframes i (by rw [hi]; nofun)]
    exact h.parameter hi
  inStep := False.elim
  supply := Nat.le_refl _
  size := Nat.le_refl _
  owned {i p} hi := .inl (by rw [hi]; nofun)
  fresh hi := .inr hi
  kept _ := rfl

end Renaming

/-! ## All clients together -/

namespace Table

open Renaming

/-- Clients at one table, and each of them at a table of its own. -/
structure Together (t : Table) (u : Nat → Table) (w : Nat → identity.World) : Prop where
  linked : ∀ who, Linked (apart (w who) t.memory) (w who) t.memory (u who).memory
  /-- No frame belongs to two clients. -/
  disjoint : ∀ who who' i, who ≠ who' → (w who).frames i ≠ none → (w who').frames i = none
  env : ∀ who, Option.Rel
    (fun env env' => Chains (w who).frames .outside env.frames env'.frames)
    (t.env who) ((u who).env who)
  answers : ∀ who, Forall₂ (Answer.Same (w who).pairs) (t.answers who) ((u who).answers who)

variable {t t' u' : Table} {u : Nat → Table} {w : Nat → identity.World} {v : identity.World}
  {who : Nat}

/-- The frames of another client are set apart while one moves on. -/
theorem Together.not_own (h : Together t u w) {other i : Nat} (hne : other ≠ who)
    (hi : (w other).frames i ≠ none) : ¬(apart (w who) t.memory).own i := by
  rintro (hold | hnew)
  · exact hold (h.disjoint other who i hne hi)
  · obtain ⟨q, hq⟩ := Option.ne_none_iff_exists'.1 hi
    exact absurd ((h.linked other).within (k := q.1) (j := q.2) hq).1 (Nat.not_lt.2 hnew)

/-- A client that moves on takes no frame from another. -/
theorem Together.frames_eq_none (h : Together t u w)
    (hlinked : Linked (apart (w who) t.memory) v t'.memory u'.memory) {other i : Nat}
    (hne : other ≠ who) (hi : v.frames i ≠ none) : (w other).frames i = none := by
  by_contra hother
  obtain ⟨p, hp⟩ := Option.ne_none_iff_exists'.1 hi
  exact h.not_own hne hother (hlinked.owned hp)

/-- A client moves on, at both tables. -/
theorem Together.advance (h : Together t u w) (hle : (w who).Le v)
    (hlinked : Linked (apart (w who) t.memory) v t'.memory u'.memory)
    (henv : Option.Rel (fun env env' => Chains v.frames .outside env.frames env'.frames)
      (t'.env who) (u'.env who))
    (hanswers : Forall₂ (Answer.Same v.pairs) (t'.answers who) (u'.answers who))
    (hothers : ∀ other, other ≠ who → t'.env other = t.env other ∧
      t'.answers other = t.answers other) :
    Together t' (Function.update u who u') (Function.update w who v) := by
  constructor
  · intro other
    by_cases hne : other = who
    · subst hne
      rw [Function.update_self, Function.update_self]
      exact hlinked.elsewhere (Nat.le_refl _) (Nat.le_refl _) fun _ _ => rfl
    · rw [Function.update_of_ne hne, Function.update_of_ne hne]
      exact (h.linked other).elsewhere hlinked.supply hlinked.size fun i hi =>
        hlinked.kept (h.not_own hne hi)
  · intro a b i hab hi
    by_cases ha : a = who
    · subst ha
      rw [Function.update_self] at hi
      rw [Function.update_of_ne hab.symm]
      exact h.frames_eq_none hlinked hab.symm hi
    · rw [Function.update_of_ne ha] at hi
      by_cases hb : b = who
      · subst hb
        rw [Function.update_self]
        by_contra hv
        exact hi (h.frames_eq_none hlinked ha hv)
      · rw [Function.update_of_ne hb]
        exact h.disjoint a b i hab hi
  · intro other
    by_cases hne : other = who
    · subst hne
      rw [Function.update_self, Function.update_self]
      exact henv
    · rw [Function.update_of_ne hne, Function.update_of_ne hne, (hothers other hne).1]
      exact h.env other
  · intro other
    by_cases hne : other = who
    · subst hne
      rw [Function.update_self, Function.update_self]
      exact hanswers
    · rw [Function.update_of_ne hne, Function.update_of_ne hne, (hothers other hne).2]
      exact h.answers other

theorem Together.create (h : Together t u w) (who : Nat) :
    ∃ w', Together (t.turn (.create who))
      (Function.update u who ((u who).turn (.create who))) w' := by
  have henv := h.env who
  generalize ht : t.env who = o at henv
  generalize hu : (u who).env who = o' at henv
  cases henv with
  | some _ =>
      rw [turn_create_of_some ht, turn_create_of_some hu, Function.update_eq_self]
      exact ⟨w, h⟩
  | none =>
      obtain ⟨v, hle, hlinked, hchains⟩ := topLevel_linked (h.linked who)
      rw [turn_create_of_none ht, turn_create_of_none hu]
      refine ⟨_, h.advance hle hlinked ?_ (same_mono hle.pairs (h.answers who)) ?_⟩
      · dsimp only
        rw [Function.update_self, Function.update_self]
        exact .some hchains
      · exact fun other hne => ⟨Function.update_of_ne hne _ _, rfl⟩

theorem Together.ask (h : Together t u w) (who : Nat) (request : Request) :
    ∃ w', Together (t.turn (.ask who request))
      (Function.update u who ((u who).turn (.ask who request))) w' := by
  have henv := h.env who
  generalize ht : t.env who = o at henv
  generalize hu : (u who).env who = o' at henv
  cases henv with
  | none =>
      rw [turn_ask_of_none ht, turn_ask_of_none hu, Function.update_eq_self]
      exact ⟨w, h⟩
  | some hchains =>
      obtain ⟨v, hle, hlinked, hanswer⟩ := exists_same_of_ends
        (request_tracks (T := apart (w who) t.memory) hchains (h.answers who) request
          _ _ (h.linked who))
      rw [turn_ask_of_some ht, turn_ask_of_some hu]
      refine ⟨_, h.advance hle hlinked ?_ ?_ ?_⟩
      · dsimp only
        rw [ht, hu]
        exact .some (hchains.mono hle.frames)
      · dsimp only
        rw [Function.update_self, Function.update_self]
        exact List.rel_append (same_mono hle.pairs (h.answers who)) (.cons hanswer .nil)
      · exact fun other hne => ⟨rfl, Function.update_of_ne hne _ _⟩

/-- Whoever's turn it is, the clients stay together. -/
theorem Together.turn (h : Together t u w) (τ : Turn) :
    ∃ w', Together (t.turn τ) (Function.update u τ.who ((u τ.who).turn τ)) w' := by
  cases τ with
  | create who => exact h.create who
  | ask who request => exact h.ask who request

theorem Together.play (h : Together t u w) (turns : List Turn) :
    ∃ w', Together (t.play turns)
      (fun who => (u who).play (turns.filter fun τ => τ.who = who)) w' := by
  induction turns generalizing t u w with
  | nil => exact ⟨w, h⟩
  | cons τ turns ih =>
      obtain ⟨v, hv⟩ := h.turn τ
      obtain ⟨w', hw'⟩ := ih hv
      refine ⟨w', ?_⟩
      have hplay : (fun who => (u who).play ((τ :: turns).filter fun τ => τ.who = who)) =
          fun who => (Function.update u τ.who ((u τ.who).turn τ) who).play
            (turns.filter fun τ => τ.who = who) := by
        funext who
        rw [List.filter_cons]
        by_cases hwho : τ.who = who
        · subst hwho
          rw [if_pos (decide_eq_true rfl), Function.update_self]
          rfl
        · rw [if_neg (by simpa using hwho), Function.update_of_ne (Ne.symm hwho)]
      rw [hplay]
      exact hw'

/-- Nothing belongs to a client that has made no environment. -/
def nothing : identity.World where
  pairs := .empty
  frames _ := none
  sound := False.elim

theorem Together.start (m n : Memory Heap) :
    Together (start m) (fun _ => Table.start n) fun _ => nothing where
  linked _ := {
    tags := False.elim
    within := nofun
    unique := nofun
    bindings := nofun
    parameter := nofun
    inStep := False.elim
    supply := Nat.le_refl _
    size := Nat.le_refl _
    owned := nofun
    fresh := .inr
    kept := fun _ => rfl }
  disjoint _ _ _ _ _ := rfl
  env _ := .none
  answers _ := .nil

/-- Every client gets the answers that it gets alone. -/
theorem answers_alone (m n : Memory Heap) (turns : List Turn) (who : Nat) :
    SameAnswers (((start m).play turns).answers who)
      (((start n).play (turns.filter fun τ => τ.who = who)).answers who) := by
  obtain ⟨w, hw⟩ := (Together.start m n).play turns
  exact ⟨(w who).pairs, fun _ _ h => World.copies h, hw.answers who⟩

end Table

/-- Evaluation in one environment does not disturb what it cannot get at: neither an
evaluation nor a call changes another frame, or what is behind one, and so clients
that share a heap and pass each other no values get the answers that they get
alone. -/
theorem Scoping.undisturbed :
    (∀ (limit : Nat) (env : Environment) (expr : Value) (m : Memory Heap),
      Heap.Confined [env] [expr] m.bound
        (Eval.runFrom m (Scoping.lexical.evaluate limit env expr)).1
        (Eval.runFrom m (Scoping.lexical.evaluate limit env expr)).2.bound) ∧
    (∀ (limit : Nat) (f : Value) (args : List Value) (m : Memory Heap),
      Heap.Confined [] (f :: args) m.bound
        (Eval.runFrom m (Scoping.lexical.applyWithin limit f args)).1
        (Eval.runFrom m (Scoping.lexical.applyWithin limit f args)).2.bound) ∧
    ∀ (m n : Memory Heap) (turns : List Turn) (who : Nat),
      SameAnswers (((Table.start m).play turns).answers who)
        (((Table.start n).play (turns.filter fun τ => τ.who = who)).answers who) :=
  ⟨Scoping.evaluate_confined, Scoping.applyWithin_confined, Table.answers_alone⟩

end TwinScheme

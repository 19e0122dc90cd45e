import TwinScheme.Program
import TwinScheme.Proofs.Session.Holdings
import TwinScheme.Proofs.Session.Lines

/-!
# Sessions as processes

A session is one thing that a process may do. It has a top-level environment or a set
of definitions that the process has; to take a line is to read a datum and to evaluate
it; and the value comes to be held. So what is true of whatever a process can get hold
of is true of the values of lines and of programs.
-/

namespace TwinScheme.Holdings

/-- A process has all that a session has. -/
inductive Hosts (h : Holdings) : Session → Prop
  | lexical {limits top} : top ∈ h.tops → Hosts h (.lexical limits top ⟨h.supply, h.heap⟩)
  | textual {limits i} : Hosts h (.textual limits ⟨h.supply, h.stores i⟩)

/-- A process can go on until it has all that a session has, and a value if there is
one. -/
def Comes (reads : Datum → Prop) (h : Holdings) (v : Option Value) (t : Session) : Prop :=
  ∃ h', Later reads h h' ∧ h'.Hosts t ∧ ∀ u ∈ v, h'.Has u

variable {reads : Datum → Prop} {h : Holdings} {s t : Session} {v : Option Value}

/-- A session starts with what a process has at first, but for a top level that has
to be opened. -/
theorem attained_start (reads : Datum → Prop) (strategy : Strategy) (limits : Limits) :
    ∃ h, Attained reads h ∧ h.Hosts (Session.start strategy limits) := by
  cases strategy with
  | lexical => exact ⟨blank.opened, .single .opens, .lexical List.mem_cons_self⟩
  | textual => exact ⟨blank, .refl, .textual (i := 0)⟩

/-- After an evaluation by substitution a process has what the session has then. -/
theorem hosts_afterTextual (h : Holdings) (i : Nat) (limits : Limits)
    (t : Machine.State Bindings Unit) : (h.afterTextual i t).Hosts (.textual limits t.memory) := by
  have hbound : (h.afterTextual i t).stores i = t.memory.bound := Function.update_self ..
  have hhosts : (h.afterTextual i t).Hosts (.textual limits ⟨_, _⟩) := .textual (i := i)
  rwa [hbound] at hhosts

theorem Hosts.evalDatum (hs : h.Hosts s) {d : Datum} (hd : reads d) :
    h.Comes reads (s.evalDatum d).1.toOption (s.evalDatum d).2 := by
  have hreads : Later reads h (h.reading d) := .single (.reads hd)
  have hexpr : (h.reading d).Has (d.toValue h.supply).1 := .value List.mem_cons_self
  cases hs with
  | @lexical limits top htop =>
      rw [Session.evalDatum_lexical]
      generalize hruns : Eval.runFrom _ (Scoping.lexical.evaluate _ _ _) = r
      obtain ⟨result, m⟩ := r
      refine ⟨_, hreads.tail ((Step.evaluated hexpr).1 top htop result m hruns), .lexical htop,
        fun u hu => ?_⟩
      cases result with
      | error e => cases hu
      | ok v => exact Option.some.inj hu ▸ .value List.mem_cons_self
  | @textual limits i =>
      rw [Session.evalDatum_textual]
      generalize hruns : Eval.runFrom _ (Scoping.textual.evaluate _ _ _) = r
      obtain ⟨result, m⟩ := r
      refine ⟨_, hreads.tail ((Step.evaluated hexpr).2 i result m hruns),
        hosts_afterTextual .., fun u hu => ?_⟩
      cases result with
      | error e => cases hu
      | ok v => exact Option.some.inj hu ▸ .value List.mem_cons_self

section

variable (hreads : ∀ nesting text d, Datum.parse nesting text = .ok d → reads d)

include hreads

/-- A line that cannot be read leaves a process as it is. -/
theorem Hosts.evalLine (hs : h.Hosts s) (line : String) :
    h.Comes reads (s.evalLine line).1.toOption (s.evalLine line).2 := by
  rw [Session.evalLine]
  cases hparse : Datum.parse s.limits.nesting line with
  | error fault => exact ⟨h, .refl, hs, fun u hu => by cases hu⟩
  | ok d => exact hs.evalDatum (hreads _ _ _ hparse)

theorem Hosts.runLines (hs : h.Hosts s) {last : Option Value} (hlast : ∀ u ∈ last, h.Has u)
    {lines : List String} (hrun : Program.runLines last s lines = (.ok v, t)) :
    h.Comes reads v t := by
  induction lines generalizing h s last with
  | nil =>
      cases hrun
      exact ⟨h, .refl, hs, hlast⟩
  | cons line rest ih =>
      obtain ⟨h', hlater, hs', hhas⟩ := hs.evalLine hreads line
      rw [Program.runLines] at hrun
      generalize s.evalLine line = r at hs' hhas hrun
      obtain ⟨result, s'⟩ := r
      cases result with
      | error e => cases hrun
      | ok w =>
          obtain ⟨h'', hlater', hcomes⟩ := ih hs' hhas hrun
          exact ⟨h'', hlater.trans hlater', hcomes⟩

/-- The value of a program is held by a process that reads what the program has read. -/
theorem exists_has_of_run {strategy : Strategy} {limits : Limits} {source : String} {v : Value}
    (hrun : Program.run (Session.start strategy limits) source = (.ok (some v), t)) :
    ∃ h, Attained reads h ∧ h.Hosts t ∧ h.Has v := by
  obtain ⟨h, hh, hs⟩ := attained_start reads strategy limits
  obtain ⟨h', hlater, ht, hhas⟩ := hs.runLines hreads (fun u hu => by cases hu) hrun
  exact ⟨h', hh.trans hlater, ht, hhas v rfl⟩

end

end TwinScheme.Holdings

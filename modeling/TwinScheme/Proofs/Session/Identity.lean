import TwinScheme.Proofs.Session.Holdings
import TwinScheme.Proofs.Value.Equality

/-!
# Identity and equality in a process

Identity says nothing of what is in a list, and yet two lists that are the same have
the same elements: an identity is given once, and what it is given to does not change.
That is a property of what a process can get hold of, now and later, and with it
identity implies structural equality wherever anything is equal to itself.
-/

namespace TwinScheme

theorem Datum.named_of_forall {names : String → Prop} (hnames : ∀ x, names x) (d : Datum) :
    d.Named names := by
  cases d with
  | int n => exact .int n
  | float x => exact .float x
  | symbol x => exact .symbol (hnames x)
  | list items => exact .list fun d _ => Datum.named_of_forall hnames d

namespace Value

/-- What the ledger has under the identity of a recorded value is the value. -/
theorem Recorded.entry {L : Ledger} {v : Value} (h : v.Recorded L) {t : Tag}
    (ht : v.tag? = some t) : L.entry t.id = some v := by
  cases h with
  | constant hc => cases v <;> simp [isConstant, tag?] at hc ht
  | symbol => cases ht
  | list hentry | closure hentry | lambda hentry =>
      cases ht
      exact hentry

/-- Values that are recorded in one ledger can be there at the same time. -/
theorem Recorded.coexist {L : Ledger} {a b : Value} (ha : a.Recorded L) (hb : b.Recorded L) :
    a.Coexist b :=
  fun _ hta htb => Option.some.inj ((ha.entry hta).symm.trans (hb.entry htb))

end Value

namespace Holdings

variable {reads : Datum → Prop} {h h' : Holdings}

/-- What a process has at some time, and what it has later, can be there together. -/
theorem Attained.coexist (hh : Attained reads h) (hlater : Later reads h h') {a b : Value}
    (ha : h.Has a) (hb : h'.Has b) : a.Coexist b := by
  have hreads : ∀ d, reads d → d.Named fun _ => True :=
    fun d _ => d.named_of_forall fun _ => trivial
  obtain ⟨L, hnames, hL⟩ := hh.recorded (fun _ => trivial) hreads
  obtain ⟨L', hle, hL'⟩ := hL.later (hnames ▸ hreads) hlater
  exact ((hL.has ha).mono hle).coexist (hL'.has hb)

/-- Structural equality is symmetric and transitive, and a value is equal to itself
unless there is in it, at any depth of lists, something that is unspecified or no
number. Identity is symmetric, and among values that can be there at the same time it
is transitive; a value is the same as itself unless it is unspecified or no number.
Whatever a process has at some time can be there together with what it has then or
later, so that identity is transitive on all of it, and two things that are the same
are equal as soon as the first is equal to itself. -/
theorem equalities (hh : Attained reads h) (hlater : Later reads h h') :
    (∀ a b : Value, a.equal b = b.equal a) ∧
    (∀ a b c : Value, a.equal b = true → b.equal c = true → a.equal c = true) ∧
    (∀ v : Value, v.equal v = true ↔
      ∀ u ∈ v.parts, u ≠ .unspecified ∧ ∀ x, u = .float x → x.isNaN = false) ∧
    (∀ a b : Value, a.identical b = b.identical a) ∧
    (∀ a b c : Value, a.Coexist b → b.Coexist c →
      a.identical b = true → b.identical c = true → a.identical c = true) ∧
    (∀ v : Value, v.identical v = true ↔
      v ≠ .unspecified ∧ ∀ x, v = .float x → x.isNaN = false) ∧
    ∀ a b, h.Has a → h'.Has b →
      a.Coexist b ∧
      (∀ c, h'.Has c → a.identical b = true → b.identical c = true → a.identical c = true) ∧
      (a.identical b = true → a.equal a = true → a.equal b = true) := by
  refine ⟨Value.equal_comm, fun _ _ _ => Value.equal_trans, Value.equal_self_iff,
    Value.identical_comm, fun _ _ _ => Value.identical_trans, Value.identical_self_iff, ?_⟩
  intro a b ha hb
  have hab := hh.coexist hlater ha hb
  refine ⟨hab, fun c hc => Value.identical_trans hab ?_, Value.equal_of_identical hab⟩
  exact Attained.coexist (hh.trans hlater) .refl hb hc

/-- A list inside an expression that was read, and what the expression was evaluated
to. -/
theorem equalities_quoted :
    let expr : Datum := .list [.symbol "quote", .list [.int 1]]
    ∃ h h', Attained (· = expr) h ∧ Later (· = expr) h h' ∧ ∃ a b, h.Has a ∧ h'.Has b ∧
      a.identical b = true ∧ a.equal a = true ∧ a.equal b = true := by
  intro expr
  let h := blank.opened.reading expr
  let h' := h.afterLexical ⟨.answer (.ok (.list 0 [.int 1])), [], ⟨h.supply, h.heap⟩⟩
  have hh : Attained (· = expr) h := (Relation.ReflTransGen.single .opens).tail (.reads rfl)
  let quotation : Value := .list 1 [.symbol "quote", .list 0 [.int 1]]
  have hexpr : h.Has quotation := .value List.mem_cons_self
  have hruns : Eval.runFrom ⟨h.supply, h.heap⟩
      (Scoping.lexical.evaluate 1 blank.heap.topLevel.1 quotation) =
        (.ok (.list 0 [.int 1]), ⟨h.supply, h.heap⟩) := rfl
  have hlater : Later (· = expr) h h' :=
    .single ((Step.evaluated hexpr).1 _ List.mem_cons_self _ _ hruns)
  have ha : h.Has (.list 0 [.int 1]) := .item hexpr (List.mem_cons_of_mem _ List.mem_cons_self)
  have hb : h'.Has (.list 0 [.int 1]) := .value List.mem_cons_self
  obtain ⟨-, -, -, -, -, -, hheld⟩ := equalities hh hlater
  exact ⟨h, h', hh, hlater, _, _, ha, hb, rfl, rfl, (hheld _ _ ha hb).2.2 rfl rfl⟩

end Holdings

end TwinScheme

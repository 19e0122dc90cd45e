import Mathlib
import TwinScheme.Proofs.Evaluator.Correspondence

/-!
# Laws of the two equalities

Neither equality is an equivalence, and both fail at the same place: what is no
number, and what is unspecified, is not equal to itself. Apart from that they are
symmetric and transitive.

On values that are no lists the two equalities are one. Structural equality goes on
into lists. Identity takes a list for its identity and the empty lists for one
another, and so it is transitive only among values that can be there at the same time:
no two of them are lists of one identity with different elements.
-/

namespace TwinScheme

namespace Value

/-! ## Identity -/

/-- Two values that can be there at the same time: if they were made as one, they are
one. -/
def Coexist (a b : Value) : Prop :=
  ∀ t, a.tag? = some t → b.tag? = some t → a = b

variable {a b c : Value}

theorem Coexist.items {i j : Identity} {as bs : List Value}
    (h : (list i as).Coexist (list j bs)) (hij : i = j) : as = bs := by
  subst hij
  cases h (.list i) rfl rfl
  rfl

theorem identical_comm (a b : Value) : a.identical b = b.identical a := by
  cases a <;> cases b <;> first
    | rfl
    | exact BEq.comm
    | simp only [identical, Bool.and_comm, BEq.comm]

theorem identical_trans_of_not_isList (hb : b.isList = false) (h : a.identical b = true)
    (h' : b.identical c = true) : a.identical c = true := by
  cases a <;> cases b <;> try cases h
  all_goals cases c <;> try cases h'
  case list.list.list => cases hb
  all_goals exact BEq.trans h h'

theorem isList_eq_of_identical (h : a.identical b = true) : a.isList = b.isList := by
  cases a <;> cases b <;> first | rfl | cases h

theorem exists_of_isList (h : a.isList = true) : ∃ id items, a = list id items := by
  cases a with
  | list id items => exact ⟨id, items, rfl⟩
  | _ => cases h

theorem identical_list_iff {i j : Identity} {as bs : List Value} :
    (list i as).identical (list j bs) = true ↔ (as = [] ∧ bs = []) ∨ i = j := by
  simp [identical]

/-- Only the identities of lists can get in the way: an empty list is the same as every
other. -/
theorem identical_trans (hab : a.Coexist b) (hbc : b.Coexist c)
    (h : a.identical b = true) (h' : b.identical c = true) : a.identical c = true := by
  cases hb : b.isList with
  | false => exact identical_trans_of_not_isList hb h h'
  | true =>
      obtain ⟨i, as, rfl⟩ := exists_of_isList ((isList_eq_of_identical h).trans hb)
      obtain ⟨j, bs, rfl⟩ := exists_of_isList hb
      obtain ⟨k, cs, rfl⟩ := exists_of_isList ((isList_eq_of_identical h').symm.trans hb)
      have has := hab.items
      have hbs := hbc.items
      rw [identical_list_iff] at h h' ⊢
      grind

example : (list 0 []).identical (list 1 []) = true ∧
    (list 1 []).identical (list 1 [.unspecified]) = true ∧
    (list 0 []).identical (list 1 [.unspecified]) = false := by decide

/-- What is the same has the same elements. -/
theorem equal_of_identical (hab : a.Coexist b) (h : a.identical b = true)
    (ha : a.equal a = true) : a.equal b = true := by
  cases hlist : a.isList with
  | false => rwa [← identical_eq_equal (.inl hlist)]
  | true =>
      obtain ⟨i, as, rfl⟩ := exists_of_isList hlist
      obtain ⟨j, bs, rfl⟩ := exists_of_isList ((isList_eq_of_identical h).symm.trans hlist)
      rcases identical_list_iff.1 h with ⟨rfl, rfl⟩ | hid
      · rfl
      · cases hab.items hid
        exact ha

/-! ## Structural equality -/

theorem isList_eq_of_equal (h : a.equal b = true) : a.isList = b.isList := by
  cases a <;> cases b <;> first | rfl | cases h

theorem equal_comm_of_not_isList (ha : a.isList = false) (b : Value) :
    a.equal b = b.equal a := by
  rw [← identical_eq_equal (.inl ha), ← identical_eq_equal (.inr ha), identical_comm]

theorem equal_trans_of_not_isList (hb : b.isList = false) (h : a.equal b = true)
    (h' : b.equal c = true) : a.equal c = true := by
  have hc : c.isList = false := (isList_eq_of_equal h').symm.trans hb
  rw [← identical_eq_equal (.inr hb)] at h
  rw [← identical_eq_equal (.inr hc)] at h' ⊢
  exact identical_trans_of_not_isList hb h h'

mutual

theorem equal_comm : ∀ a b : Value, a.equal b = b.equal a
  | list _ as, list _ bs => equalAll_comm as bs
  | list .., int _ | list .., float _ | list .., symbol _ | list .., bool _ | list .., primitive _
  | list .., closure .. | list .., lambda .. | list .., unspecified => rfl
  | int _, b | float _, b | symbol _, b | bool _, b | primitive _, b | closure .., b
  | lambda .., b | unspecified, b => equal_comm_of_not_isList rfl b

theorem equalAll_comm : ∀ as bs : List Value, equalAll as bs = equalAll bs as
  | [], [] | [], _ :: _ | _ :: _, [] => rfl
  | a :: as, b :: bs => by rw [equalAll, equalAll, equal_comm a b, equalAll_comm as bs]

end

mutual

theorem equal_trans : ∀ {a b c : Value}, a.equal b = true → b.equal c = true → a.equal c = true
  | list .., list .., list .., h, h' => equalAll_trans h h'
  | _, int _, _, h, h' | _, float _, _, h, h' | _, symbol _, _, h, h' | _, bool _, _, h, h'
  | _, primitive _, _, h, h' | _, closure .., _, h, h' | _, lambda .., _, h, h'
  | _, unspecified, _, h, h' => equal_trans_of_not_isList rfl h h'

theorem equalAll_trans : ∀ {as bs cs : List Value}, equalAll as bs = true →
    equalAll bs cs = true → equalAll as cs = true
  | [], [], [], _, _ => rfl
  | a :: as, b :: bs, c :: cs, h, h' => by
      obtain ⟨ha, has⟩ := Bool.and_eq_true_iff.1 h
      obtain ⟨hb, hbs⟩ := Bool.and_eq_true_iff.1 h'
      exact Bool.and_eq_true_iff.2 ⟨equal_trans ha hb, equalAll_trans has hbs⟩

end

/-! ## A value and itself -/

mutual

/-- A tree and what stands in it at any depth, quotations included. -/
def parts : Value → List Value
  | list id items => list id items :: partsAll items
  | v => [v]

/-- What stands in several trees. -/
def partsAll : List Value → List Value
  | [] => []
  | v :: vs => v.parts ++ partsAll vs

end

theorem mem_parts_self (v : Value) : v ∈ v.parts := by
  cases v <;> exact List.mem_cons_self

theorem mem_parts_item {s : Value} {id : Identity} {items : List Value}
    (h : s ∈ partsAll items) : s ∈ (list id items).parts :=
  List.mem_cons_of_mem _ h

/-- Whether a value that is no list is equal to itself. -/
def isSelfEqual : Value → Bool
  | float x => x == x
  | unspecified => false
  | _ => true

mutual

/-- A value is equal to itself unless there is in it something that is not. -/
theorem equal_self : ∀ v : Value, v.equal v = v.parts.all isSelfEqual
  | list id items => by
      rw [equal, parts, List.all_cons, equalAll_self items]
      rfl
  | int _ | symbol _ | primitive _ | closure .. | lambda .. => by
      rw [equal, beq_self_eq_true]
      rfl
  | bool b => by cases b <;> rfl
  | float x => (Bool.and_true (x == x)).symm
  | unspecified => rfl

theorem equalAll_self : ∀ vs : List Value, equalAll vs vs = (partsAll vs).all isSelfEqual
  | [] => rfl
  | v :: vs => by
      rw [equalAll, partsAll, List.all_append, equal_self v, equalAll_self vs]

end

theorem isSelfEqual_iff (v : Value) : v.isSelfEqual = true ↔
    v ≠ unspecified ∧ ∀ x, v = float x → x.isNaN = false := by
  cases v with
  | float x => simp [isSelfEqual]
  | _ => simp [isSelfEqual]

/-- A value is equal to itself unless there is something unspecified in it, or something
that is no number among the floats. -/
theorem equal_self_iff (v : Value) : v.equal v = true ↔
    ∀ u ∈ v.parts, u ≠ unspecified ∧ ∀ x, u = float x → x.isNaN = false := by
  simp only [equal_self, List.all_eq_true, isSelfEqual_iff]

/-- A value is the same as itself unless it is unspecified itself, or no number itself. -/
theorem identical_self_iff (v : Value) : v.identical v = true ↔
    v ≠ unspecified ∧ ∀ x, v = float x → x.isNaN = false := by
  cases v with
  | list id items => simp [identical]
  | _ =>
      rw [identical_eq_equal (.inl rfl), equal_self_iff]
      exact List.forall_mem_singleton

end Value

end TwinScheme

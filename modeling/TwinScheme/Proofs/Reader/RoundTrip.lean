import TwinScheme.Datum.Reader
import TwinScheme.Proofs.Reader.Numerals
import TwinScheme.Proofs.Value.Equality
import TwinScheme.Value.Equality
import TwinScheme.Value.Printer
import TwinScheme.Value.Supply

/-!
# Printed trees read back

The text of a tree of numbers, symbols and lists is cut into the tokens of the
tree: a leaf is a single atom, a list is its elements between parentheses, and
the blanks of the text stand between elements only. Reading those tokens gives
the tree back, as long as the lists are nested no deeper than the limit.

Both halves are about a text with something after it. A leaf ends where a blank,
a closing parenthesis or the end of the text comes next, and in the text of a
list one of these always does. The reader takes the tokens of a tree off the
front of any tokens and pushes the tree onto whatever list is open.

In the other direction, all that the reader makes out of a text is such a tree,
since it makes symbols of atoms only and nests lists within the limit.
-/

namespace TwinScheme

/-! ## Trees -/

/-- A tree of numbers, symbols and lists, with lists nested at most some number
of levels. The name of a symbol is an atom and no numeral. -/
inductive Value.Spelled : Nat → Value → Prop
  | int {depth : Nat} (n : Int64) : Spelled depth (.int n)
  | float {depth : Nat} (x : Float) : Spelled depth (.float x)
  | symbol {depth : Nat} {name : String} : Token.IsAtom name.toList →
      Datum.ofAtom name = .symbol name → Spelled depth (.symbol name)
  | list {depth : Nat} {items : List Value} (id : Identity) :
      (∀ v ∈ items, Spelled depth v) → Spelled (depth + 1) (.list id items)

mutual

/-- The floats among the leaves of a tree. -/
def Value.floats : Value → List Float
  | .float x => [x]
  | .list _ items => Value.floatsAll items
  | _ => []

/-- The floats among the leaves of several trees. -/
def Value.floatsAll : List Value → List Float
  | [] => []
  | v :: vs => v.floats ++ Value.floatsAll vs

end

theorem Value.mem_floatsAll {x : Float} {v : Value} {vs : List Value} (hv : v ∈ vs)
    (hx : x ∈ v.floats) : x ∈ floatsAll vs := by
  induction vs with
  | nil => cases hv
  | cons w ws ih =>
      rw [floatsAll, List.mem_append]
      rcases List.mem_cons.1 hv with rfl | hv
      · exact .inl hx
      · exact .inr (ih hv)

/-- A float is a number, and its text denotes it. -/
structure Number.ReadsBack (x : Float) : Prop where
  isNaN : x.isNaN = false
  float? : Number.float? (Number.floatText x).toList = some x

/-- A tree reads back from its text: no token is left over, and the datum that
was read stands for an equal tree. -/
def Value.ReadsBack (limit : Nat) (v : Value) : Prop :=
  ∃ d, Datum.parse limit v.display = .ok d ∧
    (Datum.read limit (Token.ofText v.display)).2 = [] ∧ ∀ next, v.equal (d.toValue next).1 = true

/-! ## The tokens of a text -/

mutual

/-- The tokens of a tree. -/
def Value.tokens : Value → List Token
  | .list _ items => .opening :: Value.tokensAll items ++ [.closing]
  | v => [.atom v.display]

/-- The tokens of several trees. -/
def Value.tokensAll : List Value → List Token
  | [] => []
  | v :: vs => v.tokens ++ Value.tokensAll vs

end

namespace Token

/-- A text that ends a run: nothing, or a text that starts with a blank or a
parenthesis. -/
def Ends (cs : List Char) : Prop :=
  ∀ c ∈ cs.head?, isPlain c = false

theorem scan_append {cs : List Char} (hcs : ∀ c ∈ cs, isPlain c = true) (run rest : List Char) :
    scan run (cs ++ rest) = scan (cs.reverse ++ run) rest := by
  induction cs generalizing run with
  | nil => rfl
  | cons c cs ih =>
      obtain ⟨hc, hcs⟩ := List.forall_mem_cons.1 hcs
      simp only [isPlain, Bool.not_eq_true', Bool.or_eq_false_iff, beq_eq_false_iff_ne] at hc
      obtain ⟨⟨hblank, hopening⟩, hclosing⟩ := hc
      rw [List.cons_append, scan, if_neg hopening, if_neg hclosing, hblank,
        if_neg Bool.false_ne_true, ih hcs, List.reverse_cons, List.append_assoc]
      rfl

theorem scan_ends {rest : List Char} (h : Ends rest) (run : List Char) :
    scan run rest = complete run ++ scan [] rest := by
  cases rest with
  | nil => rw [scan, scan, complete.eq_1 [], List.isEmpty_nil, if_pos rfl, List.append_nil]
  | cons c cs =>
      have hc : isPlain c = false := h c rfl
      simp only [isPlain, Bool.not_eq_false', Bool.or_eq_true, beq_iff_eq] at hc
      rw [scan, scan]
      rcases hc with (hblank | rfl) | rfl
      · simp only [hblank, if_true]
        split
        · rfl
        · split <;> rfl
      · rfl
      · rfl

theorem scan_atom {text : String} (h : IsAtom text.toList) {rest : List Char} (hrest : Ends rest) :
    scan [] (text.toList ++ rest) = atom text :: scan [] rest := by
  have hne : text.toList.reverse.isEmpty = false := by
    rw [List.isEmpty_eq_false_iff]
    exact fun hnil => h.ne_nil (List.reverse_eq_nil_iff.1 hnil)
  rw [scan_append h.plain, scan_ends hrest, List.append_nil, complete, hne,
    if_neg Bool.false_ne_true, List.reverse_reverse, String.ofList_toList]
  rfl

theorem scan_parentheses (text : String) (rest : List Char) :
    scan [] (("(" ++ text ++ ")").toList ++ rest) =
      opening :: scan [] (text.toList ++ ')' :: rest) := by
  have hopening : "(".toList = ['('] := rfl
  have hclosing : ")".toList = [')'] := rfl
  rw [String.toList_append, String.toList_append, hopening, hclosing, List.append_assoc,
    List.append_assoc]
  rfl

theorem scan_blank (rest : List Char) : scan [] (' ' :: rest) = scan [] rest := rfl

theorem ends_blank (rest : List Char) : Ends (' ' :: rest) := by
  rintro c ⟨⟩
  rfl

theorem ends_closing (rest : List Char) : Ends (')' :: rest) := by
  rintro c ⟨⟩
  rfl

theorem ends_nil : Ends [] := by
  rintro c ⟨⟩

end Token

namespace Value

variable {depth limit : Nat} {v : Value}

/-- The text of a list, after its opening parenthesis. -/
theorem scan_displayAll {items : List Value} (hitems : ∀ v ∈ items, ∀ rest, Token.Ends rest →
    Token.scan [] (v.display.toList ++ rest) = v.tokens ++ Token.scan [] rest)
    (rest : List Char) :
    Token.scan [] ((" ".intercalate (displayAll items)).toList ++ ')' :: rest) =
      tokensAll items ++ Token.scan [] (')' :: rest) := by
  induction items with
  | nil => rfl
  | cons v items ih =>
      obtain ⟨hv, hitems⟩ := List.forall_mem_cons.1 hitems
      cases items with
      | nil =>
          rw [displayAll, displayAll, String.intercalate_singleton, hv _ (Token.ends_closing rest),
            tokensAll, tokensAll, List.append_nil]
      | cons w items =>
          have hrest := ih hitems
          rw [displayAll] at hrest ⊢
          have hblank : " ".toList = [' '] := rfl
          rw [displayAll, String.intercalate_cons_cons, String.toList_append, String.toList_append,
            hblank, List.append_assoc, List.append_assoc, List.singleton_append,
            hv _ (Token.ends_blank _), Token.scan_blank, hrest, tokensAll.eq_2 v,
            List.append_assoc]

theorem Spelled.scan_display (h : v.Spelled depth) (hx : ∀ x ∈ v.floats, x.isNaN = false)
    {rest : List Char} (hrest : Token.Ends rest) :
    Token.scan [] (v.display.toList ++ rest) = v.tokens ++ Token.scan [] rest := by
  induction h generalizing rest with
  | int n =>
      exact Token.scan_atom (Number.integerText_isAtom n.toInt) hrest
  | float x =>
      have hatom := (Number.floatText_isFloatText (hx x List.mem_cons_self)).isAtom
      exact Token.scan_atom hatom hrest
  | symbol hatom _ =>
      exact Token.scan_atom hatom hrest
  | @list depth items id hitems ih =>
      have hall := scan_displayAll (fun v hv _ hends =>
        ih v hv (fun x hmem => hx x (mem_floatsAll hv hmem)) hends) rest
      rw [display, Token.scan_parentheses, hall, tokens, List.append_assoc]
      rfl

theorem Spelled.ofText_display (h : v.Spelled depth) (hx : ∀ x ∈ v.floats, x.isNaN = false) :
    Token.ofText v.display = v.tokens := by
  have hscan := h.scan_display hx Token.ends_nil
  rw [List.append_nil] at hscan
  rw [Token.ofText, hscan, Token.scan, Token.complete, List.isEmpty_nil, if_pos rfl,
    List.append_nil]

end Value

/-! ## Reading the tokens of a tree -/

namespace Datum

/-- Reads on after a datum: it is the result if no list is open, and an element
of the innermost list otherwise. -/
def deliver (limit : Nat) (d : Datum) (stack : List (List Datum)) (rest : List Token) :
    Except ReadFault Datum × List Token :=
  match stack with
  | [] => (.ok d, rest)
  | items :: stack => readWithin limit ((d :: items) :: stack) rest

variable {limit : Nat}

theorem readWithin_atom (stack : List (List Datum)) (text : String) (rest : List Token) :
    readWithin limit stack (.atom text :: rest) = deliver limit (ofAtom text) stack rest := by
  cases stack <;> rw [readWithin, deliver]

theorem readWithin_closing (items : List Datum) (stack : List (List Datum)) (rest : List Token) :
    readWithin limit (items :: stack) (.closing :: rest) =
      deliver limit (.list items.reverse) stack rest := by
  cases stack <;> rw [readWithin, deliver]

theorem toValue_list (ds : List Datum) (next : Identity) :
    ((Datum.list ds).toValue next).1 = .list (toValues ds next).2 (toValues ds next).1 := rfl

theorem toValues_cons (d : Datum) (ds : List Datum) (next : Identity) :
    (toValues (d :: ds) next).1 =
      (d.toValue next).1 :: (toValues ds (d.toValue next).2).1 := rfl

/-- A datum stands for a tree, and is what the tokens of the tree are read as. -/
structure Reads (limit depth : Nat) (v : Value) (d : Datum) : Prop where
  equal : ∀ next, v.equal (d.toValue next).1 = true
  read : ∀ stack rest, stack.length + depth ≤ limit →
    readWithin limit stack (v.tokens ++ rest) = deliver limit d stack rest

theorem Reads.all {depth : Nat} {vs : List Value} (h : ∀ v ∈ vs, ∃ d, Reads limit depth v d) :
    ∃ ds, (∀ next, Value.equalAll vs (toValues ds next).1 = true) ∧
      ∀ items stack rest, stack.length + 1 + depth ≤ limit →
        readWithin limit (items :: stack) (Value.tokensAll vs ++ rest) =
          readWithin limit ((ds.reverse ++ items) :: stack) rest := by
  induction vs with
  | nil => exact ⟨[], fun _ => rfl, fun _ _ _ _ => rfl⟩
  | cons v vs ih =>
      obtain ⟨hv, hvs⟩ := List.forall_mem_cons.1 h
      obtain ⟨d, hd⟩ := hv
      obtain ⟨ds, hequal, hread⟩ := ih hvs
      refine ⟨d :: ds, fun next => ?_, fun items stack rest hlimit => ?_⟩
      · rw [toValues_cons, Value.equalAll, hd.equal, hequal, Bool.true_and]
      · rw [Value.tokensAll, List.append_assoc, hd.read (items :: stack) _ hlimit, deliver,
          hread _ _ _ hlimit, List.reverse_cons, List.append_assoc, List.singleton_append]

end Datum

theorem Number.ReadsBack.equal {x : Float} (h : ReadsBack x) : (x == x) = true := by
  have hnumber := h.isNaN
  rw [Float.isNaN_eq_decide_eq_nan, decide_eq_false_iff_not] at hnumber
  exact Float.beq_self_iff.2 hnumber

namespace Value

variable {depth limit : Nat} {v : Value}

/-- The tokens of a tree are read as a datum that stands for the tree. -/
theorem Spelled.reads (h : v.Spelled depth) (hx : ∀ x ∈ v.floats, Number.ReadsBack x) :
    ∃ d, Datum.Reads limit depth v d := by
  induction h with
  | int n =>
      have hatom : Datum.ofAtom (Number.integerText n.toInt) = .int n :=
        Datum.ofAtom_eq_int_iff.2 (Number.int64?_integerText n)
      refine ⟨.int n, fun _ => beq_self_eq_true n, fun stack rest _ => ?_⟩
      rw [← hatom]
      exact Datum.readWithin_atom stack _ rest
  | float x =>
      have hback := hx x List.mem_cons_self
      have hinteger := (Number.floatText_isFloatText hback.isNaN).int64?_eq_none
      have hatom : Datum.ofAtom (Number.floatText x) = .float x :=
        Datum.ofAtom_eq_float_iff.2 ⟨hinteger, hback.float?⟩
      refine ⟨.float x, fun _ => hback.equal, fun stack rest _ => ?_⟩
      rw [← hatom]
      exact Datum.readWithin_atom stack _ rest
  | @symbol _ name _ hatom =>
      refine ⟨.symbol name, fun _ => beq_self_eq_true name, fun stack rest _ => ?_⟩
      rw [← hatom]
      exact Datum.readWithin_atom stack _ rest
  | @list depth items id hitems ih =>
      obtain ⟨ds, hequal, hread⟩ := Datum.Reads.all fun v hv =>
        ih v hv fun x hmem => hx x (mem_floatsAll hv hmem)
      refine ⟨.list ds, fun next => ?_, fun stack rest hlimit => ?_⟩
      · rw [Datum.toValue_list, equal, hequal]
      · have hroom : ¬limit ≤ stack.length := by omega
        rw [tokens, List.append_assoc, List.cons_append, Datum.readWithin, if_neg hroom,
          hread _ _ _ (by omega), List.singleton_append, Datum.readWithin_closing,
          List.append_nil, List.reverse_reverse]

theorem Spelled.readsBack (h : v.Spelled limit) (hx : ∀ x ∈ v.floats, Number.ReadsBack x) :
    v.ReadsBack limit := by
  obtain ⟨d, hd⟩ : ∃ d, Datum.Reads limit limit v d := h.reads hx
  have hread : Datum.read limit (Token.ofText v.display) = (.ok d, []) := by
    have htokens := hd.read [] [] (by simp)
    rw [List.append_nil] at htokens
    rw [h.ofText_display fun x hmem => (hx x hmem).isNaN, Datum.read, htokens, Datum.deliver]
  refine ⟨d, ?_, ?_, hd.equal⟩
  · rw [Datum.parse, hread]
  · rw [hread]

end Value

/-! ## What the reader makes out of a text -/

theorem Token.isAtom_of_mem_complete {run : List Char} (hrun : ∀ c ∈ run, isPlain c = true)
    {text : String} (h : atom text ∈ complete run) : IsAtom text.toList := by
  unfold complete at h
  split at h
  · cases h
  · next hne =>
    cases List.mem_singleton.1 h
    rw [String.toList_ofList]
    refine ⟨fun hnil => hne ?_, fun c hc => hrun c (List.mem_reverse.1 hc)⟩
    rw [List.reverse_eq_nil_iff.1 hnil, List.isEmpty_nil]

theorem Token.isAtom_of_mem_complete_append {run : List Char}
    (hrun : ∀ c ∈ run, isPlain c = true) {text : String} {tokens : List Token}
    (htokens : atom text ∈ tokens → IsAtom text.toList) (h : atom text ∈ complete run ++ tokens) :
    IsAtom text.toList :=
  (List.mem_append.1 h).elim (isAtom_of_mem_complete hrun) htokens

/-- The text of an atom among the tokens of a text is an atom. -/
theorem Token.isAtom_of_mem_scan {run cs : List Char} (hrun : ∀ c ∈ run, isPlain c = true)
    {text : String} (h : atom text ∈ scan run cs) : IsAtom text.toList := by
  induction cs generalizing run with
  | nil => exact isAtom_of_mem_complete hrun h
  | cons c cs ih =>
      have hnone : ∀ c ∈ [], isPlain c = true := List.forall_mem_nil _
      rw [scan] at h
      split at h
      · refine isAtom_of_mem_complete_append hrun (fun h => ?_) h
        exact ih hnone ((List.mem_cons.1 h).resolve_left nofun)
      · split at h
        · refine isAtom_of_mem_complete_append hrun (fun h => ?_) h
          exact ih hnone ((List.mem_cons.1 h).resolve_left nofun)
        · split at h
          · exact isAtom_of_mem_complete_append hrun (ih hnone) h
          · next hopening hclosing hblank =>
            refine ih (List.forall_mem_cons.2 ⟨?_, hrun⟩) h
            simp [isPlain, hopening, hclosing, hblank]

namespace Datum

/-- The values of a datum are trees. -/
def Spelled (depth : Nat) (d : Datum) : Prop :=
  ∀ next, (d.toValue next).1.Spelled depth

theorem spelled_ofAtom {text : String} (h : Token.IsAtom text.toList) (depth : Nat) :
    (ofAtom text).Spelled depth := by
  intro next
  cases hatom : ofAtom text with
  | int n => exact .int n
  | float x => exact .float x
  | symbol name =>
      obtain ⟨rfl, -, -⟩ := ofAtom_eq_symbol_iff.1 hatom
      exact .symbol h hatom
  | list items => exact absurd hatom (ofAtom_ne_list text items)

theorem spelled_list {depth : Nat} {ds : List Datum} (h : ∀ d ∈ ds, d.Spelled depth) :
    (Datum.list ds).Spelled (depth + 1) := by
  have hall : ∀ next, ∀ v ∈ (toValues ds next).1, v.Spelled depth := by
    induction ds with
    | nil => exact fun _ => List.forall_mem_nil _
    | cons d ds ih =>
        obtain ⟨hd, hds⟩ := List.forall_mem_cons.1 h
        intro next
        rw [toValues_cons]
        exact List.forall_mem_cons.2 ⟨hd next, ih hds _⟩
  intro next
  rw [toValue_list]
  exact .list _ (hall next)

/-- Open lists, no more of them than the limit, whose elements leave room for
the lists around them. -/
inductive OpenSpelled (limit : Nat) : List (List Datum) → Prop
  | nil : OpenSpelled limit []
  | cons {items : List Datum} {stack : List (List Datum)} : stack.length < limit →
      (∀ d ∈ items, d.Spelled (limit - (stack.length + 1))) → OpenSpelled limit stack →
      OpenSpelled limit (items :: stack)

theorem OpenSpelled.push {limit : Nat} {d : Datum} {items : List Datum}
    {stack : List (List Datum)} (h : OpenSpelled limit (items :: stack))
    (hd : d.Spelled (limit - (stack.length + 1))) : OpenSpelled limit ((d :: items) :: stack) := by
  cases h with
  | cons hroom hitems hstack => exact .cons hroom (List.forall_mem_cons.2 ⟨hd, hitems⟩) hstack

theorem OpenSpelled.close {limit : Nat} {items : List Datum} {stack : List (List Datum)}
    (h : OpenSpelled limit (items :: stack)) :
    OpenSpelled limit stack ∧ (Datum.list items.reverse).Spelled (limit - stack.length) := by
  cases h with
  | cons hroom hitems hstack =>
      have hdepth : limit - stack.length = limit - (stack.length + 1) + 1 := by omega
      refine ⟨hstack, ?_⟩
      rw [hdepth]
      exact spelled_list fun d hd => hitems d (List.mem_reverse.1 hd)

/-- What is read with some lists open is a tree if the elements read so far
are. -/
theorem spelled_of_readWithin {limit : Nat} {stack : List (List Datum)} {tokens rest : List Token}
    {d : Datum} (hstack : OpenSpelled limit stack)
    (htokens : ∀ text, .atom text ∈ tokens → Token.IsAtom text.toList)
    (h : readWithin limit stack tokens = (.ok d, rest)) : d.Spelled limit := by
  fun_induction readWithin limit stack tokens with
  | case1 | case2 | case4 => cases h
  | case3 stack tail hroom ih =>
      have hopen : OpenSpelled limit ([] :: stack) :=
        .cons (by omega) (List.forall_mem_nil _) hstack
      exact ih hopen (fun text hmem => htokens text (List.mem_cons_of_mem _ hmem)) h
  | case5 items tail =>
      cases h
      exact hstack.close.2
  | case6 items outer stack tail ih =>
      obtain ⟨houter, hd⟩ := hstack.close
      exact ih (houter.push hd) (fun text hmem => htokens text (List.mem_cons_of_mem _ hmem)) h
  | case7 text tail =>
      cases h
      exact spelled_ofAtom (htokens text List.mem_cons_self) limit
  | case8 items stack text tail ih =>
      have hd := spelled_ofAtom (htokens text List.mem_cons_self) (limit - (stack.length + 1))
      exact ih (hstack.push hd) (fun text hmem => htokens text (List.mem_cons_of_mem _ hmem)) h

theorem spelled_of_parse {limit : Nat} {text : String} {d : Datum}
    (h : parse limit text = .ok d) : d.Spelled limit := by
  have hread : readWithin limit [] (Token.ofText text) =
      (.ok d, (readWithin limit [] (Token.ofText text)).2) := by
    rw [← h]
    rfl
  have hrun : ∀ c ∈ [], Token.isPlain c = true := List.forall_mem_nil _
  exact spelled_of_readWithin .nil (fun _ hmem => Token.isAtom_of_mem_scan hrun hmem) hread

end Datum

/-- Every tree of numbers, symbols and lists that is not nested too deep reads
back from its text, if the texts of its floats denote them; and everything that
can be read from a text is such a tree. -/
theorem Value.display_readsBack (limit : Nat) :
    (∀ v : Value, v.Spelled limit → (∀ x ∈ v.floats, Number.ReadsBack x) → v.ReadsBack limit) ∧
    (∀ text d, Datum.parse limit text = .ok d → ∀ next,
      (d.toValue next).1.Spelled limit ∧
      ((∀ x ∈ (d.toValue next).1.floats, Number.ReadsBack x) →
        (d.toValue next).1.ReadsBack limit)) := by
  refine ⟨fun v hv hx => hv.readsBack hx, fun text d hparse next => ?_⟩
  have hspelled := Datum.spelled_of_parse hparse next
  exact ⟨hspelled, fun hx => hspelled.readsBack hx⟩

/-- The tree `(-9223372036854775808 add1 (1.5 ()))`. -/
def Value.nestedTree : Value :=
  .list 0 [.int Int64.minValue, .symbol "add1", .list 1 [.float 1.5, .list 2 []]]

/-- The sample satisfies what is asked of a tree, and what its text is read as
does so again. -/
theorem Value.nestedTree_readsBack :
    nestedTree.Spelled 3 ∧ (∀ x ∈ nestedTree.floats, Number.ReadsBack x) ∧
      nestedTree.ReadsBack 3 ∧
      ∃ d, Datum.parse 3 nestedTree.display = .ok d ∧ (d.toValue 0).1.Spelled 3 := by
  have hspelled : nestedTree.Spelled 3 := by
    have hsymbol : Value.Spelled 2 (.symbol "add1") :=
      .symbol ⟨by decide, List.all_eq_true.1 rfl⟩ rfl
    have hinner : Value.Spelled 2 (.list 1 [.float 1.5, .list 2 []]) :=
      .list 1 (by simpa using ⟨.float 1.5, .list 2 (by simp)⟩)
    exact .list 0 (by simpa using ⟨.int Int64.minValue, hsymbol, hinner⟩)
  have hfloats : ∀ x ∈ nestedTree.floats, Number.ReadsBack x := by
    intro x hx
    obtain rfl : x = 1.5 := List.mem_singleton.1 hx
    exact ⟨by decide +kernel, by decide +kernel⟩
  have hback := (display_readsBack 3).1 nestedTree hspelled hfloats
  obtain ⟨d, hparse, -⟩ := id hback
  exact ⟨hspelled, hfloats, hback, d, hparse, ((display_readsBack 3).2 _ d hparse 0).1⟩

end TwinScheme

import Mathlib.Order.Bounds.Basic
import TwinScheme.Datum.Reader

/-!
# Where the reader stops

The reader keeps a stack of open lists, but where it stops is a matter of
counting. Let the depth after some tokens be the number of opening ones among
them less the number of closing ones. A list is read to its end at the first
token after which the depth is back at zero, and given up at the first token
after which it exceeds the limit, whichever comes first; if neither comes, every
token is used up.

One induction over the tokens carries both descriptions: with `height` lists
open, reading on stops where the count started at `height` stops. What is read
is a second matter, and flattening the datum gives back the tokens it was read
from.
-/

namespace TwinScheme

namespace Token

/-- What a token does to the depth. -/
def step : Token → Int
  | opening => 1
  | closing => -1
  | atom _ => 0

/-- The depth after the first tokens of a list. -/
def depthAfter (tokens : List Token) (n : Nat) : Int :=
  (tokens.take n).count opening - (tokens.take n).count closing

theorem depthAfter_zero (tokens : List Token) : depthAfter tokens 0 = 0 := rfl

theorem depthAfter_nil (n : Nat) : depthAfter [] n = 0 := by
  rw [depthAfter, List.take_nil]
  rfl

theorem depthAfter_cons (t : Token) (rest : List Token) (n : Nat) :
    depthAfter (t :: rest) (n + 1) = t.step + depthAfter rest n := by
  rw [depthAfter, depthAfter, List.take_succ_cons]
  cases t with
  | opening =>
      rw [List.count_cons_self, List.count_cons_of_ne (by decide), step]
      omega
  | closing =>
      rw [List.count_cons_self, List.count_cons_of_ne (by decide), step]
      omega
  | atom text =>
      rw [List.count_cons_of_ne (by simp), List.count_cons_of_ne (by simp), step]
      omega

end Token

namespace Datum

/-- The depth stays positive and within the limit for some tokens, if it starts
at a given height. -/
def Within (limit : Nat) (height : Int) (tokens : List Token) (n : Nat) : Prop :=
  ∀ i < n, 0 < height + Token.depthAfter tokens i ∧ height + Token.depthAfter tokens i ≤ limit

/-- How reading on with some lists open ends, and after how many tokens. -/
inductive Stops (limit : Nat) (height : Int) (tokens : List Token) :
    Except ReadFault Datum × List Token → Prop
  | closed {n d} : Within limit height tokens n → height + Token.depthAfter tokens n = 0 →
      Stops limit height tokens (.ok d, tokens.drop n)
  | tooDeep {n} : Within limit height tokens n → limit < height + Token.depthAfter tokens n →
      Stops limit height tokens (.error (.tooDeep limit), tokens.drop n)
  | incomplete : (∀ n, Within limit height tokens n) →
      Stops limit height tokens (.error .incomplete, [])

theorem Within.cons {limit : Nat} {height : Int} {t : Token} {rest : List Token} {n : Nat}
    (hpos : 0 < height) (hle : height ≤ limit) (h : Within limit (height + t.step) rest n) :
    Within limit height (t :: rest) (n + 1) := by
  intro i hi
  cases i with
  | zero =>
      rw [Token.depthAfter_zero]
      omega
  | succ i =>
      rw [Token.depthAfter_cons, ← Int.add_assoc]
      exact h i (by omega)

theorem Stops.cons {limit : Nat} {height : Int} {t : Token} {rest : List Token}
    {r : Except ReadFault Datum × List Token} (hpos : 0 < height) (hle : height ≤ limit)
    (h : Stops limit (height + t.step) rest r) : Stops limit height (t :: rest) r := by
  cases h with
  | @closed n d hn hzero =>
      refine .closed (n := n + 1) (hn.cons hpos hle) ?_
      rwa [Token.depthAfter_cons, ← Int.add_assoc]
  | @tooDeep n hn hdeep =>
      refine .tooDeep (n := n + 1) (hn.cons hpos hle) ?_
      rwa [Token.depthAfter_cons, ← Int.add_assoc]
  | incomplete hall =>
      exact .incomplete fun n i hi => (hall n).cons hpos hle i (by omega)

/-- With lists open, and no more of them than the limit allows, reading stops
where the count does. -/
theorem readWithin_stops {limit : Nat} {stack : List (List Datum)} (hne : stack ≠ [])
    (hle : stack.length ≤ limit) (tokens : List Token) :
    Stops limit stack.length tokens (readWithin limit stack tokens) := by
  -- The stack is as high as the depth is now, so a token moves both by its step.
  induction tokens generalizing stack with
  | nil =>
      rw [readWithin]
      refine .incomplete fun n i _ => ?_
      have hlen : 0 < stack.length := List.length_pos_iff.2 hne
      rw [Token.depthAfter_nil]
      omega
  | cons t rest ih =>
      obtain ⟨items, stack, rfl⟩ := List.exists_cons_of_ne_nil hne
      have hpos : (0 : Int) < (items :: stack).length := by
        simp only [List.length_cons]
        omega
      have hfirst : Within limit (items :: stack).length (t :: rest) 1 := by
        intro i hi
        obtain rfl : i = 0 := by omega
        rw [Token.depthAfter_zero]
        omega
      have hone : Token.depthAfter (t :: rest) 1 = t.step := by
        rw [Token.depthAfter_cons, Token.depthAfter_zero, Int.add_zero]
      cases t with
      | opening =>
          rw [readWithin]
          split
          · next hfull =>
              refine .tooDeep (n := 1) hfirst ?_
              rw [hone, Token.step]
              omega
          · next hroom =>
              refine .cons hpos (by omega) ?_
              exact ih (List.cons_ne_nil [] (items :: stack)) (by simp at *; omega)
      | closing =>
          cases stack with
          | nil =>
              refine .closed (n := 1) hfirst ?_
              rw [hone]
              rfl
          | cons outer stack =>
              rw [readWithin]
              refine .cons hpos (by omega) ?_
              have hheight : ((items :: outer :: stack).length : Int) + Token.closing.step =
                  ((.list items.reverse :: outer) :: stack).length := by
                rw [Token.step]
                simp only [List.length_cons]
                omega
              rw [hheight]
              exact ih (List.cons_ne_nil _ stack) (by simp at *; omega)
      | atom text =>
          rw [readWithin]
          refine .cons hpos (by omega) ?_
          rw [Token.step, Int.add_zero]
          exact ih (List.cons_ne_nil (ofAtom text :: items) stack) hle

/-! ## What was read -/

/-- A datum as a row of parentheses and of data that are no lists. -/
inductive Piece where
  | opening
  | closing
  | leaf (d : Datum)

mutual

/-- The pieces of a datum. -/
def flatten : Datum → List Piece
  | .list items => .opening :: flattenAll items ++ [.closing]
  | d => [.leaf d]

/-- The pieces of several data. -/
def flattenAll : List Datum → List Piece
  | [] => []
  | d :: ds => d.flatten ++ flattenAll ds

end

/-- The piece that a token is read as. -/
def Piece.ofToken : Token → Piece
  | .opening => .opening
  | .closing => .closing
  | .atom text => .leaf (ofAtom text)

theorem flattenAll_append (ds es : List Datum) :
    flattenAll (ds ++ es) = flattenAll ds ++ flattenAll es := by
  induction ds with
  | nil => rfl
  | cons d ds ih => rw [List.cons_append, flattenAll, flattenAll, ih, List.append_assoc]

theorem flatten_ofAtom (text : String) : (ofAtom text).flatten = [.leaf (ofAtom text)] := by
  unfold ofAtom
  split
  · rfl
  · split <;> rfl

/-- The pieces read so far, of lists that are still open. -/
def openPieces : List (List Datum) → List Piece
  | [] => []
  | items :: stack => openPieces stack ++ .opening :: flattenAll items.reverse

theorem openPieces_cons (d : Datum) (items : List Datum) (stack : List (List Datum)) :
    openPieces ((d :: items) :: stack) = openPieces (items :: stack) ++ d.flatten := by
  rw [openPieces, openPieces, List.reverse_cons, flattenAll_append, flattenAll, flattenAll,
    List.append_nil, List.append_assoc, List.cons_append]

/-- A datum that was read flattens to what was there and what was consumed. -/
theorem flatten_of_readWithin {limit : Nat} {stack : List (List Datum)} {tokens rest : List Token}
    {d : Datum} (h : readWithin limit stack tokens = (.ok d, rest)) :
    ∃ consumed, tokens = consumed ++ rest ∧
      d.flatten = openPieces stack ++ consumed.map Piece.ofToken := by
  fun_induction readWithin limit stack tokens with
  | case1 | case2 | case4 => cases h
  | case3 stack tail _ ih =>
      obtain ⟨consumed, rfl, hd⟩ := ih h
      refine ⟨.opening :: consumed, rfl, ?_⟩
      rw [hd, openPieces, List.append_assoc]
      rfl
  | case5 items tail =>
      cases h
      refine ⟨[.closing], rfl, ?_⟩
      rw [flatten, openPieces]
      rfl
  | case6 items outer stack tail ih =>
      obtain ⟨consumed, rfl, hd⟩ := ih h
      refine ⟨.closing :: consumed, rfl, ?_⟩
      rw [hd, openPieces_cons, flatten, openPieces.eq_2 items]
      simp [Piece.ofToken]
  | case7 text tail =>
      cases h
      refine ⟨[.atom text], rfl, ?_⟩
      rw [flatten_ofAtom]
      rfl
  | case8 items stack text tail ih =>
      obtain ⟨consumed, rfl, hd⟩ := ih h
      refine ⟨.atom text :: consumed, rfl, ?_⟩
      rw [hd, openPieces_cons, flatten_ofAtom, List.append_assoc]
      rfl

/-! ## The reader -/

/-- After how many tokens a list has been read to its end. -/
def IsEnd (tokens : List Token) (e : Nat) : Prop :=
  IsLeast {n | 0 < n ∧ Token.depthAfter tokens n = 0} e

/-- After how many tokens the limit has been exceeded. -/
def IsExcess (limit : Nat) (tokens : List Token) (k : Nat) : Prop :=
  IsLeast {n | (limit : Int) < Token.depthAfter tokens n} k

section

variable {limit n : Nat} {rest : List Token}

theorem Within.before (h : Within limit 1 rest n) : ∀ i < n + 1,
    ¬(0 < i ∧ Token.depthAfter (.opening :: rest) i = 0) ∧
      ¬(limit : Int) < Token.depthAfter (.opening :: rest) i := by
  intro i hi
  cases i with
  | zero =>
      rw [Token.depthAfter_zero]
      omega
  | succ i =>
      have hdepth := h i (by omega)
      rw [Token.depthAfter_cons, Token.step]
      omega

theorem Within.isEnd (h : Within limit 1 rest n) (hclosed : 1 + Token.depthAfter rest n = 0) :
    IsEnd (.opening :: rest) (n + 1) ∧ ∀ k, IsExcess limit (.opening :: rest) k → n + 1 < k := by
  have hdepth : Token.depthAfter (.opening :: rest) (n + 1) = 0 := by
    rw [Token.depthAfter_cons]
    exact hclosed
  refine ⟨⟨⟨by omega, hdepth⟩, fun e he => ?_⟩, fun k hk => ?_⟩
  · exact not_lt.1 fun hlt => (h.before e hlt).1 he
  · have hexcess : (limit : Int) < Token.depthAfter (.opening :: rest) k := hk.1
    rcases Nat.lt_trichotomy k (n + 1) with hlt | rfl | hgt
    · exact absurd hexcess (h.before k hlt).2
    · omega
    · exact hgt

theorem Within.isExcess (h : Within limit 1 rest n)
    (hdeep : limit < 1 + Token.depthAfter rest n) :
    IsExcess limit (.opening :: rest) (n + 1) ∧ ∀ e, IsEnd (.opening :: rest) e → n + 1 < e := by
  have hdepth : (limit : Int) < Token.depthAfter (.opening :: rest) (n + 1) := by
    rw [Token.depthAfter_cons]
    exact hdeep
  refine ⟨⟨hdepth, fun k hk => ?_⟩, fun e he => ?_⟩
  · exact not_lt.1 fun hlt => (h.before k hlt).2 hk
  · obtain ⟨hpos, hnil⟩ := he.1
    rcases Nat.lt_trichotomy e (n + 1) with hlt | rfl | hgt
    · exact absurd ⟨hpos, hnil⟩ (h.before e hlt).1
    · omega
    · exact hgt

/-- A list is read to its end, or up to where it exceeds the limit, or up to the
last token. -/
theorem read_opening_cases (limit : Nat) (rest : List Token) :
    (∃ n d, IsEnd (.opening :: rest) n ∧ (∀ k, IsExcess limit (.opening :: rest) k → n < k) ∧
      read limit (.opening :: rest) = (.ok d, (Token.opening :: rest).drop n)) ∨
    (∃ n, IsExcess limit (.opening :: rest) n ∧ (∀ e, IsEnd (.opening :: rest) e → n < e) ∧
      read limit (.opening :: rest) =
        (.error (.tooDeep limit), (Token.opening :: rest).drop n)) ∨
    ((∀ n, ¬IsEnd (.opening :: rest) n) ∧ (∀ n, ¬IsExcess limit (.opening :: rest) n) ∧
      read limit (.opening :: rest) = (.error .incomplete, [])) := by
  rw [read, readWithin]
  split
  · next hfull =>
    have hnone : Within limit 1 rest 0 := fun i hi => absurd hi (Nat.not_lt_zero i)
    have hdeep : (limit : Int) < 1 + Token.depthAfter rest 0 := by
      rw [Token.depthAfter_zero]
      rw [List.length_nil] at hfull
      omega
    obtain ⟨hfirst, hlater⟩ := hnone.isExcess hdeep
    exact .inr (.inl ⟨1, hfirst, hlater, rfl⟩)
  · next hroom =>
    have hstops := readWithin_stops (List.cons_ne_nil [] []) (Nat.lt_of_not_le hroom) rest
    generalize readWithin limit [[]] rest = r at hstops ⊢
    cases hstops with
    | @closed n d hn hclosed =>
        obtain ⟨hfirst, hlater⟩ := hn.isEnd hclosed
        exact .inl ⟨n + 1, d, hfirst, hlater, rfl⟩
    | @tooDeep n hn hdeep =>
        obtain ⟨hfirst, hlater⟩ := hn.isExcess hdeep
        exact .inr (.inl ⟨n + 1, hfirst, hlater, rfl⟩)
    | incomplete hall =>
        refine .inr (.inr ⟨fun e he => ?_, fun k hk => ?_, rfl⟩)
        · exact ((hall e).before e (Nat.lt_succ_self e)).1 he.1
        · exact ((hall k).before k (Nat.lt_succ_self k)).2 hk.1

end

/-- The reader accepts exactly the balanced expressions, and its cursor stops
where the count of parentheses says. For a list, the count first comes back to
zero after `e` tokens, or first exceeds the limit after `k` of them. What was
read flattens to the tokens that were consumed. -/
theorem read_spec (limit position : Nat) (tokens : List Token) :
    (tokens.drop position = [] →
      read limit (tokens.drop position) = (.error .incomplete, tokens.drop position)) ∧
    (∀ rest, tokens.drop position = .closing :: rest →
      read limit (tokens.drop position) =
        (.error .unexpectedClose, tokens.drop (position + 1))) ∧
    (∀ text rest, tokens.drop position = .atom text :: rest →
      read limit (tokens.drop position) = (.ok (ofAtom text), tokens.drop (position + 1))) ∧
    (∀ rest, tokens.drop position = .opening :: rest →
      (∀ k, IsExcess limit (tokens.drop position) k →
        (∀ e, IsEnd (tokens.drop position) e → k < e) →
        read limit (tokens.drop position) =
          (.error (.tooDeep limit), tokens.drop (position + k))) ∧
      (∀ e, IsEnd (tokens.drop position) e →
        (∀ k, IsExcess limit (tokens.drop position) k → e < k) →
        ∃ d, read limit (tokens.drop position) = (.ok d, tokens.drop (position + e))) ∧
      ((∀ e, ¬IsEnd (tokens.drop position) e) →
        (∀ k, ¬IsExcess limit (tokens.drop position) k) →
        read limit (tokens.drop position) = (.error .incomplete, []))) ∧
    (∀ d rest, read limit (tokens.drop position) = (.ok d, rest) →
      ∃ consumed, tokens.drop position = consumed ++ rest ∧
        d.flatten = consumed.map Piece.ofToken) := by
  have hdrop : ∀ n, tokens.drop (position + n) = (tokens.drop position).drop n :=
    fun n => List.drop_drop.symm
  simp only [hdrop]
  generalize tokens.drop position = ts
  refine ⟨?_, ?_, ?_, ?_, fun d rest hread => ?_⟩
  · rintro rfl
    rfl
  · rintro rest rfl
    rfl
  · rintro text rest rfl
    rfl
  · rintro rest rfl
    rcases read_opening_cases limit rest with ⟨n, d, hend, hlater, hread⟩ |
      ⟨n, hexcess, hlater, hread⟩ | ⟨hend, hexcess, hread⟩
    · refine ⟨fun k hk hfirst => ?_, fun e he _ => ?_, fun hnone _ => absurd hend (hnone n)⟩
      · exact absurd (hfirst n hend) (Nat.lt_asymm (hlater k hk))
      · rw [he.unique hend]
        exact ⟨d, hread⟩
    · refine ⟨fun k hk _ => ?_, fun e he hfirst => ?_, fun _ hnone => absurd hexcess (hnone n)⟩
      · rw [hk.unique hexcess]
        exact hread
      · exact absurd (hfirst n hexcess) (Nat.lt_asymm (hlater e he))
    · exact ⟨fun k hk => absurd hk (hexcess k), fun e he => absurd he (hend e),
        fun _ _ => hread⟩
  · exact flatten_of_readWithin hread

/-- `x (a ())`, read from its second token with room for one list. -/
theorem read_spec_beyond_limit :
    let tokens : List Token := [.atom "x", .opening, .atom "a", .opening, .closing, .closing]
    IsExcess 1 (tokens.drop 1) 3 ∧ (∀ e, IsEnd (tokens.drop 1) e → 3 < e) ∧
      read 1 (tokens.drop 1) = (.error (.tooDeep 1), tokens.drop 4) := by
  intro tokens
  have hnone : ∀ n < 3, ¬(1 : Int) < Token.depthAfter (tokens.drop 1) n := by decide
  have hopen : ∀ n ≤ 3, 0 < n → Token.depthAfter (tokens.drop 1) n ≠ 0 := by decide
  have hexcess : IsExcess 1 (tokens.drop 1) 3 :=
    ⟨by decide, fun k hk => not_lt.1 fun hlt => hnone k hlt hk⟩
  have hlater : ∀ e, IsEnd (tokens.drop 1) e → 3 < e := by
    intro e he
    exact not_le.1 fun hle => hopen e hle he.1.1 he.1.2
  refine ⟨hexcess, hlater, ?_⟩
  exact ((read_spec 1 1 tokens).2.2.2.1 _ rfl).1 3 hexcess hlater

end Datum

end TwinScheme

import TwinScheme.Proofs.Evaluator.Ledger
import TwinScheme.Proofs.Reader.RoundTrip

/-!
# The names that are read

A symbol gets its name from an atom, and from one that is not the numeral of a number.
So much is known of every name in a datum that was read, however deep it is, and the
keywords, which evaluation puts into forms of its own, are names of this kind too.
-/

namespace TwinScheme.Datum

/-- A name that the reader can give to a symbol. -/
structure IsName (x : String) : Prop where
  atom : Token.IsAtom x.toList
  symbol : ofAtom x = .symbol x

theorem IsName.int64?_eq_none {x : String} (h : IsName x) : Number.int64? x.toList = none :=
  (ofAtom_eq_symbol_iff.1 h.symbol).2.1

theorem isName_keyword (k : Keyword) : IsName k.name := by
  cases k <;> exact ⟨⟨by decide, List.all_eq_true.1 rfl⟩, rfl⟩

theorem Named.imp {p q : String → Prop} (himp : ∀ x, p x → q x) :
    ∀ {d : Datum}, d.Named p → d.Named q
  | .int n, _ => .int n
  | .float x, _ => .float x
  | .symbol x, .symbol hx => .symbol (himp x hx)
  | .list _, .list hds => .list fun d hd => (hds d hd).imp himp

theorem exists_mem_toValues {ds : List Datum} {d : Datum} (hd : d ∈ ds)
    (next : Identity) : ∃ next', (d.toValue next').1 ∈ (toValues ds next).1 := by
  induction ds generalizing next with
  | nil => cases hd
  | cons d' ds ih =>
      rw [toValues_cons]
      rcases List.mem_cons.1 hd with rfl | hd
      · exact ⟨next, List.mem_cons_self⟩
      · obtain ⟨next', hmem⟩ := ih hd _
        exact ⟨next', List.mem_cons_of_mem _ hmem⟩

theorem Named.of_spelled : ∀ {d : Datum} {next : Identity} {depth : Nat},
    (d.toValue next).1.Spelled depth → d.Named IsName
  | .int n, _, _, _ => .int n
  | .float x, _, _, _ => .float x
  | .symbol x, _, _, .symbol hatom hsymbol => .symbol ⟨hatom, hsymbol⟩
  | .list ds, next, depth, h => by
      rw [toValue_list] at h
      cases h with
      | list _ hitems =>
          refine .list fun d hd => ?_
          obtain ⟨next', hmem⟩ := exists_mem_toValues hd next
          exact Named.of_spelled (hitems _ hmem)

/-- A datum that the reader can make. -/
def Readable (d : Datum) : Prop :=
  ∃ nesting text, parse nesting text = .ok d

theorem Readable.of_parse {nesting : Nat} {text : String} {d : Datum}
    (h : parse nesting text = .ok d) : d.Readable :=
  ⟨nesting, text, h⟩

theorem Readable.isNamed {d : Datum} (h : d.Readable) : d.Named IsName := by
  obtain ⟨nesting, text, hparse⟩ := h
  exact .of_spelled (spelled_of_parse hparse 0)

end TwinScheme.Datum

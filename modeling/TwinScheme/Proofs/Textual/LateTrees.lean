import TwinScheme.Proofs.Evaluator.LateStart
import TwinScheme.Proofs.Textual.Replacement
import TwinScheme.Textual.Scoping

/-!
# Trees that are made late

Substitution makes trees, and asks of those it is given only whether one is equal
to another. So what it makes late, from trees that were made late, is the shift of
what it would have made, and definitions in the two stores stay shifts of each
other.
-/

namespace TwinScheme

variable {δ : Shift}

namespace Textual

theorem isQuotation_shift (items : List Value) :
    isQuotation (items.map (·.shift δ)) = isQuotation items := by
  cases items with
  | nil => rfl
  | cons v rest => cases v <;> rfl

theorem replace_shifts_of_not_isList (name replacement tree : Value)
    (h : tree.isList = false) :
    Fresh.Shifts δ (·.shift δ) (replace name replacement tree)
      (replace (name.shift δ) (replacement.shift δ) (tree.shift δ)) := by
  have hshift := (Value.isList_shift (δ := δ) tree).trans h
  rw [replace_of_not_isList _ _ h, replace_of_not_isList _ _ hshift, Value.equal_shift]
  split
  · exact .pure rfl
  · exact .pure rfl

mutual

theorem replace_shifts (name replacement : Value) : ∀ tree : Value,
    Fresh.Shifts δ (·.shift δ) (replace name replacement tree)
      (replace (name.shift δ) (replacement.shift δ) (tree.shift δ))
  | .list id items => by
      have hequal := Value.equal_shift (δ := δ) (.list id items) name
      rw [Value.shift_list] at hequal ⊢
      rw [replace, replace, hequal, isQuotation_shift]
      split
      · exact .pure rfl
      · split
        · exact .pure (Value.shift_list id items).symm
        · exact (replaceAll_shifts name replacement items).bind fun items => .list items
  | .int _ | .float _ | .symbol _ | .bool _ | .primitive _ | .closure .. | .lambda ..
  | .unspecified => replace_shifts_of_not_isList name replacement _ rfl

theorem replaceAll_shifts (name replacement : Value) : ∀ trees : List Value,
    Fresh.Shifts δ (List.map (·.shift δ)) (replaceAll name replacement trees)
      (replaceAll (name.shift δ) (replacement.shift δ) (trees.map (·.shift δ)))
  | [] => .pure rfl
  | tree :: rest => by
      rw [List.map_cons, replaceAll, replaceAll]
      exact (replace_shifts name replacement tree).bind fun _ =>
        (replaceAll_shifts name replacement rest).bind fun _ => .pure rfl

end

theorem replaceEach_shifts (pairs : List (Value × Value)) (tree : Value) :
    Fresh.Shifts δ (·.shift δ) (replaceEach pairs tree)
      (replaceEach (pairs.map fun pair => (pair.1.shift δ, pair.2.shift δ)) (tree.shift δ)) :=
  .foldlM (fun tree pair => replace_shifts pair.1 pair.2 tree) tree pairs

theorem literal_shifts (v : Value) :
    Fresh.Shifts δ (·.shift δ) (literal v) (literal (v.shift δ)) := by
  cases v with
  | symbol name => exact .list [.symbol Keyword.quote.name, .symbol name]
  | list id items =>
      have hlist := Fresh.Shifts.list (δ := δ) [.symbol Keyword.quote.name, .list id items]
      rw [List.map_cons, List.map_singleton, Value.shift_list] at hlist
      rw [Value.shift_list]
      exact hlist
  | _ => exact .pure rfl

theorem instantiate_shifts (params args : List Value) (body : Value) :
    Fresh.Shifts δ (·.shift δ) (instantiate params args body)
      (instantiate (params.map (·.shift δ)) (args.map (·.shift δ)) (body.shift δ)) := by
  rw [instantiate, instantiate, List.zip_map]
  refine .foldlM (fun tree pair => ?_) body _
  exact (literal_shifts pair.2).bind fun v => replace_shifts pair.1 v tree

theorem find?_shift (store : Bindings) (x : String) :
    find? (store.shift δ) x = (find? store x).map (·.shift δ) := by
  rw [find?, find?, Bindings.get?_shift, Option.map_or, builtin?_shift]

end Textual

theorem Scoping.textual_shifts (δ : Shift) :
    Scoping.textual.Shifts δ id fun store store' => store' = store.shift δ where
  find? := by
    rintro store _ - x rfl
    exact Textual.find?_shift store x
  define := by
    rintro store _ - x v rfl
    exact (Bindings.shift_insert store x v).symm
  overwrite := by
    rintro store _ - x v rfl
    exact (Bindings.shift_insert store x v).symm
  close env params body := .ok fun i => (Value.shift_lambda i params body).symm
  expand w pairs body :=
    supply_late (.mapM (Textual.replaceEach_shifts pairs) body)
  enter w f args := by
    cases f with
    | lambda id params body =>
        have henter : Scoping.textual.enter = Textual.enter := rfl
        rw [Value.shift_lambda, henter, Textual.enter, Textual.enter, List.length_map,
          List.length_map]
        split
        · exact .throw (.arity _ _)
        · refine .bind (supply_late (Textual.instantiate_shifts params args body)) ?_
          rintro v e _ - rfl
          exact .pure rfl
    | _ => exact .throw (Error.Raised.same (.type (.notApplicable (Value.like_shift δ _))))
  leave _ _ _ he := he

end TwinScheme

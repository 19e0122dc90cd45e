import TwinScheme.Value.Basic

/-!
# Bindings

What a set of names is bound to. The entries are kept in ascending order of
their names, each name once, and every set of bindings carries the proof of
that, so listing them needs no sorting. The order of names is that of their
characters.

The view of a set of bindings is `get?`. `get?_insert` says what `insert` does
to it, and `ext` that nothing else can tell two sets of bindings apart: if they
answer every look-up alike, they are the same.
-/

namespace TwinScheme

/-- Names and their values, in ascending order of the names. -/
structure Bindings where
  entries : List (String × Value)
  ascending : entries.Pairwise fun a b => a.1 < b.1

namespace Bindings

/-- The value of a name among some entries. -/
def lookup (name : String) : List (String × Value) → Option Value
  | [] => none
  | (key, v) :: rest => if key = name then some v else lookup name rest

/-- Puts an entry in its place, over the one of the same name if there is one. -/
def place (name : String) (value : Value) : List (String × Value) → List (String × Value)
  | [] => [(name, value)]
  | (key, v) :: rest =>
    if key = name then (name, value) :: rest
    else if name < key then (name, value) :: (key, v) :: rest
    else (key, v) :: place name value rest

/-- Whatever stands among the entries after placing one has its name or was
there before. -/
theorem eq_or_mem_of_mem_place {name : String} {value : Value} {entries : List (String × Value)}
    {entry : String × Value} (h : entry ∈ place name value entries) :
    entry.1 = name ∨ entry ∈ entries := by
  induction entries with
  | nil =>
    rw [place, List.mem_singleton] at h
    exact .inl (by rw [h])
  | cons first rest ih =>
    obtain ⟨key, v⟩ := first
    rw [place] at h
    split at h
    · rcases List.mem_cons.1 h with rfl | h
      · exact .inl rfl
      · exact .inr (List.mem_cons_of_mem _ h)
    · split at h
      · rcases List.mem_cons.1 h with rfl | h
        · exact .inl rfl
        · exact .inr h
      · rcases List.mem_cons.1 h with rfl | h
        · exact .inr List.mem_cons_self
        · exact (ih h).imp id (List.mem_cons_of_mem _)

/-- Placing an entry keeps the order. -/
theorem pairwise_place (name : String) (value : Value) {entries : List (String × Value)}
    (h : entries.Pairwise fun a b => a.1 < b.1) :
    (place name value entries).Pairwise fun a b => a.1 < b.1 := by
  induction entries with
  | nil => exact List.pairwise_singleton _ _
  | cons first rest ih =>
    obtain ⟨key, v⟩ := first
    have hkey := (List.pairwise_cons.1 h).1
    have hrest := (List.pairwise_cons.1 h).2
    rw [place]
    split
    · next he => exact List.pairwise_cons.2 ⟨fun entry hm => he ▸ hkey entry hm, hrest⟩
    · next hne =>
      split
      · next hlt =>
        refine List.pairwise_cons.2 ⟨fun entry hm => ?_, h⟩
        rcases List.mem_cons.1 hm with rfl | hm
        · exact hlt
        · exact String.lt_trans hlt (hkey entry hm)
      · next hnlt =>
        have hlt : key < name := by
          refine String.not_le.1 fun hle => ?_
          exact hne (String.le_antisymm (String.not_lt.1 hnlt) hle)
        refine List.pairwise_cons.2 ⟨fun entry hm => ?_, ih hrest⟩
        rcases eq_or_mem_of_mem_place hm with he | hm
        · exact he ▸ hlt
        · exact hkey entry hm

/-- No name is bound. -/
def empty : Bindings :=
  ⟨[], .nil⟩

instance : EmptyCollection Bindings := ⟨empty⟩

instance : Inhabited Bindings := ⟨empty⟩

/-- The value bound to a name. -/
def get? (b : Bindings) (name : String) : Option Value :=
  lookup name b.entries

/-- Binds a name, replacing the value it had. -/
def insert (b : Bindings) (name : String) (value : Value) : Bindings :=
  ⟨place name value b.entries, pairwise_place name value b.ascending⟩

/-- Whether a name is bound. -/
def contains (b : Bindings) (name : String) : Bool :=
  (b.get? name).isSome

/-- Gives a bound name another value. -/
def set? (b : Bindings) (name : String) (value : Value) : Option Bindings :=
  if b.contains name then some (b.insert name value) else none

/-- The number of names. -/
def size (b : Bindings) : Nat :=
  b.entries.length

/-- The bound names, in ascending order. -/
def names (b : Bindings) : List String :=
  b.entries.map (·.1)

/-- Binds names one after another. -/
def insertAll (b : Bindings) (pairs : List (String × Value)) : Bindings :=
  pairs.foldl (fun b pair => b.insert pair.1 pair.2) b

/-- Placing an entry changes what its name is bound to, and nothing else. -/
theorem lookup_place (name key : String) (value : Value) (entries : List (String × Value)) :
    lookup key (place name value entries) =
      if key = name then some value else lookup key entries := by
  induction entries with
  | nil => exact ite_congr (propext eq_comm) (fun _ => rfl) fun _ => rfl
  | cons entry rest ih =>
    obtain ⟨k, v⟩ := entry
    rw [place]
    split
    · next h =>
      subst h
      exact ite_congr (propext eq_comm) (fun _ => rfl) fun hne => (if_neg (Ne.symm hne)).symm
    · next hne =>
      split
      · exact ite_congr (propext eq_comm) (fun _ => rfl) fun _ => rfl
      · rw [lookup, lookup, ih]
        by_cases hk : k = key
        · rw [if_pos hk, if_pos hk, if_neg fun h => hne (hk.trans h)]
        · rw [if_neg hk, if_neg hk]

/-- Binding a name changes what that name is bound to, and nothing else. -/
theorem get?_insert (b : Bindings) (name key : String) (value : Value) :
    (b.insert name value).get? key = if key = name then some value else b.get? key :=
  lookup_place name key value b.entries

/-- A name that comes before every entry is not bound by them. -/
theorem lookup_eq_none_of_lt {name : String} {entries : List (String × Value)}
    (h : ∀ entry ∈ entries, name < entry.1) : lookup name entries = none := by
  induction entries with
  | nil => rfl
  | cons first rest ih =>
    have hne : first.1 ≠ name := by
      intro he
      exact String.lt_irrefl name (he ▸ h first List.mem_cons_self)
    rw [lookup, if_neg hne]
    exact ih fun entry hm => h entry (List.mem_cons_of_mem _ hm)

/-- The first name of one list of entries comes no earlier than that of another
which answers every look-up alike. -/
theorem not_lt_of_lookup_eq {a b : String × Value} {as bs : List (String × Value)}
    (hbs : (b :: bs).Pairwise fun a b => a.1 < b.1)
    (h : ∀ name, lookup name (a :: as) = lookup name (b :: bs)) : ¬a.1 < b.1 := by
  intro hlt
  have hnone : lookup a.1 (b :: bs) = none := by
    refine lookup_eq_none_of_lt fun entry hm => ?_
    rcases List.mem_cons.1 hm with rfl | hm
    · exact hlt
    · exact String.lt_trans hlt ((List.pairwise_cons.1 hbs).1 entry hm)
  rw [← h, lookup, if_pos rfl] at hnone
  exact Option.some_ne_none _ hnone

/-- Entries in ascending order are determined by what a look-up finds. -/
theorem eq_of_lookup_eq {as bs : List (String × Value)}
    (has : as.Pairwise fun a b => a.1 < b.1) (hbs : bs.Pairwise fun a b => a.1 < b.1)
    (h : ∀ name, lookup name as = lookup name bs) : as = bs := by
  induction as generalizing bs with
  | nil =>
    cases bs with
    | nil => rfl
    | cons b bs => exact absurd (h b.1) (by simp [lookup])
  | cons a as ih =>
    cases bs with
    | nil => exact absurd (h a.1) (by simp [lookup])
    | cons b bs =>
      have hname : a.1 = b.1 :=
        String.le_antisymm (String.not_lt.1 (not_lt_of_lookup_eq has fun name => (h name).symm))
          (String.not_lt.1 (not_lt_of_lookup_eq hbs h))
      have hvalue : a.2 = b.2 := by
        have := h a.1
        rw [lookup, if_pos rfl, lookup, if_pos hname.symm] at this
        exact Option.some.inj this
      have hrest : as = bs := by
        refine ih (List.pairwise_cons.1 has).2 (List.pairwise_cons.1 hbs).2 fun name => ?_
        by_cases hn : a.1 = name
        · subst hn
          rw [lookup_eq_none_of_lt (List.pairwise_cons.1 has).1,
            lookup_eq_none_of_lt fun entry hm => hname ▸ (List.pairwise_cons.1 hbs).1 entry hm]
        · have := h name
          rwa [lookup, if_neg hn, lookup, if_neg (hname ▸ hn)] at this
      rw [Prod.ext hname hvalue, hrest]

/-- Sets of bindings that answer every look-up alike are the same. -/
@[ext]
theorem ext {a b : Bindings} (h : ∀ name, a.get? name = b.get? name) : a = b := by
  obtain ⟨as, has⟩ := a
  obtain ⟨bs, hbs⟩ := b
  have he : as = bs := eq_of_lookup_eq has hbs h
  subst he
  rfl

end Bindings

end TwinScheme

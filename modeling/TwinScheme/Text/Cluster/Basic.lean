import TwinScheme.Text.Cluster.Kind

/-!
# Clusters

A text is divided into clusters from left to right. Whether a character goes on
with the cluster before it depends on its kind and on the kinds already in the
cluster, and on nothing farther away: flags are two halves long, so a run of
halves is cut inside a cluster if anywhere, and pictographs and conjuncts grow
within one.

Nothing is lost by it: the clusters of a text in a row are the text.
-/

namespace TwinScheme.Text

/-- Whether kinds, the last one first, end in a consonant and a sign that merges
it with the next. -/
def endsInConjunct (kinds : List Kind) : Bool :=
  (kinds.takeWhile Kind.isBetweenConsonants).contains .linker &&
    (kinds.dropWhile Kind.isBetweenConsonants).head? == some .consonant

/-- Whether kinds, the last one first, end in a pictograph, which may have
extenders. -/
def endsInPictograph (kinds : List Kind) : Bool :=
  (kinds.dropWhile Kind.isExtender).head? == some .pictograph

/-- Whether kinds, the last one first, end in a half of a flag that waits for
the other one. -/
def endsInHalfFlag (kinds : List Kind) : Bool :=
  (kinds.takeWhile (· == .regional)).length % 2 == 1

/-- Whether a character of some kind goes on with the cluster that has the
given kinds in it, the last one first. -/
def goesOn (kinds : List Kind) (kind : Kind) : Bool :=
  match kinds with
  | [] => true
  | last :: before =>
    if last == .carriageReturn && kind == .lineFeed then true
    else if last.isSeparate || kind.isSeparate then false
    else if kind.isAttached || last == .prepended then true
    else
      match last, kind with
      | .leading, .leading | .leading, .vowel => true
      | .leading, .openSyllable | .leading, .closedSyllable => true
      | .openSyllable, .vowel | .openSyllable, .trailing => true
      | .vowel, .vowel | .vowel, .trailing => true
      | .closedSyllable, .trailing | .trailing, .trailing => true
      | .joiner, .pictograph => endsInPictograph before
      | _, .consonant => endsInConjunct kinds
      | _, .regional => endsInHalfFlag kinds
      | _, _ => false

/-- Divides what is left of a text, given the characters of the cluster being
read and their kinds, both with the last one first. -/
def clustersFrom (chars : List Char) (kinds : List Kind) : List Char → List (List Char)
  | [] => if chars.isEmpty then [] else [chars.reverse]
  | c :: cs =>
    let kind := Kind.ofChar c
    if goesOn kinds kind then clustersFrom (c :: chars) (kind :: kinds) cs
    else chars.reverse :: clustersFrom [c] [kind] cs

/-- The clusters of a text. -/
def clusters (cs : List Char) : List (List Char) :=
  clustersFrom [] [] cs

theorem flatten_clustersFrom (chars : List Char) (kinds : List Kind) (cs : List Char) :
    (clustersFrom chars kinds cs).flatten = chars.reverse ++ cs := by
  induction cs generalizing chars kinds with
  | nil =>
    rw [clustersFrom, List.append_nil]
    split
    · next h => rw [List.isEmpty_iff.1 h, List.flatten_nil, List.reverse_nil]
    · rw [List.flatten_cons, List.flatten_nil, List.append_nil]
  | cons c cs ih =>
    simp only [clustersFrom]
    split
    · rw [ih, List.reverse_cons, List.append_assoc, List.singleton_append]
    · rw [List.flatten_cons, ih, List.reverse_singleton, List.singleton_append]

/-- The clusters of a text in a row are the text. -/
theorem flatten_clusters (cs : List Char) : (clusters cs).flatten = cs :=
  flatten_clustersFrom [] [] cs

end TwinScheme.Text

import TwinScheme.Console.Typing

/-!
# Lines without backspaces

The editor with backspaces changes a line only if there are any: the clusters of a
text in a row are the text, and each is added as it is. So it delivers lines without
backspaces one by one.
-/

namespace TwinScheme.Console

theorem foldlM_enter (d : Draft) {clusters : List (List Char)} (h : ['\x08'] ∉ clusters) :
    ∃ sizes, clusters.foldlM Draft.enter d =
      some ⟨clusters.flatten.reverse ++ d.chars, sizes⟩ := by
  induction clusters generalizing d with
  | nil => exact ⟨d.sizes, rfl⟩
  | cons cluster rest ih =>
      obtain ⟨hcluster, hrest⟩ := List.ne_and_not_mem_of_not_mem_cons h
      obtain ⟨sizes, hsizes⟩ := ih (d.add cluster) hrest
      refine ⟨sizes, ?_⟩
      rw [List.foldlM_cons, Draft.enter, if_neg (Ne.symm hcluster), Option.bind_eq_bind,
        Option.bind_some, hsizes, Draft.add, List.flatten_cons, List.reverse_append,
        List.append_assoc]

theorem typed?_of_not_mem {keys : List Char} (h : '\x08' ∉ keys) : typed? keys = some keys := by
  have hclusters : ['\x08'] ∉ Text.clusters keys := by
    intro hmem
    rw [← Text.flatten_clusters keys] at h
    exact h (List.mem_flatten_of_mem hmem (List.mem_singleton_self _))
  obtain ⟨sizes, hsizes⟩ := foldlM_enter {} hclusters
  rw [typed?, hsizes, Option.map_some, Text.flatten_clusters, List.append_nil,
    List.reverse_reverse]

namespace Repl

theorem typing_oneByOne {lines : List (List Char)} (h : ∀ keys ∈ lines, '\x08' ∉ keys) :
    Editor.OneByOne typing lines := by
  refine congrArg (· ++ [Delivery.ended]) (List.map_congr_left fun keys hkeys => ?_)
  rw [Delivery.ofKeys, typed?_of_not_mem (h keys hkeys)]

end Repl

end TwinScheme.Console

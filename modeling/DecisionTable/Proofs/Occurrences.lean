import Mathlib.Data.Finset.Card
import Mathlib.Data.List.Nodup

/-!
# First occurrences

Lists without repetitions, where of equal elements the first one stays.

* `eraseDups_concat_of_mem`, `eraseDups_concat_of_not_mem`: an element that comes last counts only
  if it is not there already.
* `length_eraseDups`: as many elements stay as there are different ones.
-/

namespace DecisionTable

section Occurrences

variable {α : Type} [BEq α] [LawfulBEq α]

theorem eraseDups_concat_of_mem {a : α} {as : List α} (h : a ∈ as) :
    (as ++ [a]).eraseDups = as.eraseDups := by
  have hold : [a].removeAll as = [] := by
    rw [List.removeAll, List.filter_singleton, List.elem_eq_true_of_mem h]
    rfl
  rw [List.eraseDups_append, hold, List.eraseDups_nil, List.append_nil]

theorem eraseDups_concat_of_not_mem {a : α} {as : List α} (h : a ∉ as) :
    (as ++ [a]).eraseDups = as.eraseDups ++ [a] := by
  have hnew : [a].removeAll as = [a] := by
    rw [List.removeAll, List.filter_singleton]
    simp [h]
  rw [List.eraseDups_append, hnew, List.eraseDups_cons, List.filter_nil, List.eraseDups_nil]

theorem nodup_eraseDups (as : List α) : as.eraseDups.Nodup := by
  induction as using List.reverseRecOn with
  | nil => exact List.nodup_nil
  | append_singleton as a ih =>
      by_cases h : a ∈ as
      · rwa [eraseDups_concat_of_mem h]
      · rw [eraseDups_concat_of_not_mem h, ← List.concat_eq_append]
        exact ih.concat (mt List.mem_eraseDups.mp h)

end Occurrences

theorem length_eraseDups {α : Type} [DecidableEq α] (as : List α) :
    as.eraseDups.length = as.toFinset.card := by
  have hset : as.eraseDups.toFinset = as.toFinset := by
    ext a
    rw [List.mem_toFinset, List.mem_toFinset, List.mem_eraseDups]
  rw [← hset, List.toFinset_card_of_nodup (nodup_eraseDups as)]

end DecisionTable

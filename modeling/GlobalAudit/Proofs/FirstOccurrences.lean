import Mathlib.Data.List.Induction

/-! Lists that grow by what they do not hold yet. Such a list is what remains of all the items when of
each only the first occurrence is kept. -/
namespace GlobalAudit.FirstOccurrences

variable {α : Type} [BEq α] [LawfulBEq α]

/-- An item goes to the end unless it is there already. -/
def add (known : List α) (item : α) : List α := if item ∈ known then known else known ++ [item]

theorem eraseDups_concat (items : List α) (item : α) :
    (items ++ [item]).eraseDups = add items.eraseDups item := by
  rw [List.eraseDups_append, add]
  by_cases present : item ∈ items
  · rw [if_pos (List.mem_eraseDups.mpr present)]
    simp [List.removeAll, present]
  · rw [if_neg (mt List.mem_eraseDups.mp present)]
    simp [List.removeAll, present, List.eraseDups_cons]

/-- Adding items one by one keeps the first occurrence of each. -/
theorem foldl_add (items : List α) : items.foldl add [] = items.eraseDups := by
  induction items using List.reverseRecOn with
  | nil => rfl
  | append_singleton items item ih =>
      rw [List.foldl_append, ih, eraseDups_concat]
      rfl

theorem eraseDups_sublist (items : List α) : items.eraseDups.Sublist items := by
  induction items using List.reverseRecOn with
  | nil => exact List.Sublist.refl _
  | append_singleton items item ih =>
      rw [eraseDups_concat, add]
      split
      · exact ih.trans (List.sublist_append_left items [item])
      · exact ih.append (List.Sublist.refl _)

theorem nodup_eraseDups (items : List α) : items.eraseDups.Nodup := by
  induction items using List.reverseRecOn with
  | nil => exact List.nodup_nil
  | append_singleton items item ih =>
      rw [eraseDups_concat, add]
      split
      · exact ih
      · rename_i absent
        rw [List.nodup_append]
        refine ⟨ih, by simp, ?_⟩
        intro left known right new same
        rw [List.mem_singleton] at new
        exact absent (new ▸ same ▸ known)

theorem eraseDups_eraseDups (items : List α) : items.eraseDups.eraseDups = items.eraseDups := by
  induction items using List.reverseRecOn with
  | nil => rfl
  | append_singleton items item ih =>
      rw [eraseDups_concat, add]
      split
      · exact ih
      · rename_i absent
        rw [eraseDups_concat, ih, add, if_neg absent]

theorem eraseDups_eraseDups_append (early late : List α) :
    (early.eraseDups ++ late).eraseDups = (early ++ late).eraseDups := by
  induction late using List.reverseRecOn with
  | nil => rw [List.append_nil, List.append_nil, eraseDups_eraseDups]
  | append_singleton late item ih =>
      rw [← List.append_assoc, ← List.append_assoc, eraseDups_concat, eraseDups_concat, ih]

theorem eraseDups_filter (keep : α → Bool) (items : List α) :
    (items.filter keep).eraseDups = items.eraseDups.filter keep := by
  induction items using List.reverseRecOn with
  | nil => rfl
  | append_singleton items item ih =>
      rw [List.filter_append, eraseDups_concat, add]
      by_cases kept : keep item = true
      · rw [List.filter_cons_of_pos kept, List.filter_nil, eraseDups_concat, ih, add]
        by_cases present : item ∈ items.eraseDups
        · rw [if_pos present, if_pos (List.mem_filter.mpr ⟨present, kept⟩)]
        · rw [if_neg present, if_neg fun found => present (List.mem_filter.mp found).1,
            List.filter_append, List.filter_cons_of_pos kept, List.filter_nil]
      · rw [List.filter_cons_of_neg kept, List.filter_nil, List.append_nil, ih]
        split
        · rfl
        · rw [List.filter_append, List.filter_cons_of_neg kept, List.filter_nil, List.append_nil]

end GlobalAudit.FirstOccurrences

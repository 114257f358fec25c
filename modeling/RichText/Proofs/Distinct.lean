import Mathlib.Data.List.Basic

/-!
Lists in which nothing comes twice.

Such a list is kept by adding at its end what is not in it yet: class tokens, targets of view rules and their origins
are all collected so. What was collected in the end are the entries in the order of their first occurrence.
-/

namespace RichText.Distinct

variable {α : Type} [DecidableEq α]

theorem nodup_eraseDups (entries : List α) : entries.eraseDups.Nodup := by
  cases entries with
  | nil => simp
  | cons entry rest =>
    rw [List.eraseDups_cons, List.nodup_cons]
    exact ⟨by simp [List.mem_eraseDups], nodup_eraseDups _⟩
termination_by entries.length
decreasing_by exact Nat.lt_succ_of_le (List.length_filter_le _ _)

theorem eraseDups_of_nodup {entries : List α} (h : entries.Nodup) : entries.eraseDups = entries := by
  induction entries with
  | nil => rfl
  | cons entry rest ih =>
    obtain ⟨hnot, hrest⟩ := List.nodup_cons.1 h
    have hkept : (rest.filter fun e => !e == entry) = rest := by
      rw [List.filter_eq_self]
      intro e he
      have hne : e ≠ entry := fun heq => hnot (heq ▸ he)
      simpa using hne
    rw [List.eraseDups_cons, hkept, ih hrest]

/-- Adding entries that are not there yet, one after another, adds those that were not there at the start, in the order
of their first occurrence. -/
theorem foldl_add (present entries : List α) :
    entries.foldl (fun present entry => if entry ∈ present then present else present ++ [entry]) present =
      present ++ (entries.filter fun entry => entry ∉ present).eraseDups := by
  induction entries generalizing present with
  | nil => simp
  | cons entry rest ih =>
    rw [List.foldl_cons, ih, List.filter_cons]
    by_cases h : entry ∈ present
    · simp [h]
    · -- the entry is there from now on, so that its later occurrences are no longer added
      have hlater : (rest.filter fun e => e ∉ present ++ [entry]) =
          (rest.filter fun e => e ∉ present).filter fun e => !e == entry := by
        rw [List.filter_filter]
        refine List.filter_congr fun e _ => ?_
        by_cases he : e = entry <;> simp [he]
      rw [if_neg h, if_pos (by simpa using h), List.eraseDups_cons, hlater, List.append_assoc, List.singleton_append]

end RichText.Distinct

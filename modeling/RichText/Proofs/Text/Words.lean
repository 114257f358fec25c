import RichText.Text.Blank

/-!
Words, and texts that are made of words.

The words of a text are read back from the text that joins them by single spaces. All follows from what happens at a
blank: a word ends there, and a new one begins.
-/

namespace RichText.Text

variable {word : List Char} {words : List (List Char)}

/-- A word is not empty and has no blanks. -/
def IsWord (word : List Char) : Prop := word ≠ [] ∧ ∀ c ∈ word, isBlank c = false

/-- What stands before the first blank belongs to the word that was begun. -/
theorem wordsFrom_append {run : List Char} (h : ∀ c ∈ run, isBlank c = false) (word rest : List Char) :
    wordsFrom word (run ++ rest) = wordsFrom (run.reverse ++ word) rest := by
  induction run generalizing word with
  | nil => rfl
  | cons c run ih =>
    have hc : isBlank c = false := h c List.mem_cons_self
    rw [List.cons_append, wordsFrom, hc, if_neg (by simp), ih fun c hm => h c (List.mem_cons_of_mem _ hm)]
    simp

theorem IsWord.wordsFrom (h : IsWord word) : wordsFrom [] word = [word] := by
  have hend := wordsFrom_append h.2 [] []
  rw [List.append_nil, List.append_nil] at hend
  rw [hend]
  simp [Text.wordsFrom, h.1]

/-- A word ends at a blank, and the rest is read as a text of its own. -/
theorem IsWord.wordsFrom_blank (h : IsWord word) {blank : Char} (hb : isBlank blank = true) (rest : List Char) :
    Text.wordsFrom [] (word ++ blank :: rest) = word :: Text.wordsFrom [] rest := by
  rw [wordsFrom_append h.2, List.append_nil, Text.wordsFrom, if_pos hb, if_neg (by simp [h.1]), List.reverse_reverse]

/-- Joining words by a blank loses nothing. -/
theorem wordsFrom_intercalate {blank : Char} (hb : isBlank blank = true) (h : ∀ word ∈ words, IsWord word) :
    wordsFrom [] ([blank].intercalate words) = words := by
  induction words with
  | nil => rfl
  | cons word rest ih =>
    have hword : IsWord word := h word List.mem_cons_self
    have hrest : ∀ word ∈ rest, IsWord word := fun word hm => h word (List.mem_cons_of_mem _ hm)
    cases rest with
    | nil => simpa using hword.wordsFrom
    | cons next rest =>
      rw [List.intercalate_cons_cons, List.append_assoc, List.singleton_append, hword.wordsFrom_blank hb, ih hrest]

/-- What a text is split into are words. -/
theorem isWord_of_mem_wordsFrom {begun text : List Char} (hb : ∀ c ∈ begun, isBlank c = false)
    (h : word ∈ wordsFrom begun text) : IsWord word := by
  induction text generalizing begun with
  | nil =>
    rw [wordsFrom] at h
    split at h
    · exact absurd h List.not_mem_nil
    · rename_i hne
      rw [List.mem_singleton.1 h]
      exact ⟨by simpa using hne, fun c hc => hb c (List.mem_reverse.1 hc)⟩
  | cons c rest ih =>
    rw [wordsFrom] at h
    split at h
    · split at h
      · exact ih (by simp) h
      · rename_i hne
        obtain rfl | h := List.mem_cons.1 h
        · exact ⟨by simpa using hne, fun c hc => hb c (List.mem_reverse.1 hc)⟩
        · exact ih (by simp) h
    · rename_i hc
      refine ih (fun c' hc' => ?_) h
      obtain rfl | hc' := List.mem_cons.1 hc'
      · simpa using hc
      · exact hb c' hc'

/-- The words of a text that joins words by single spaces. -/
theorem words_intercalate {words : List String} (h : ∀ word ∈ words, IsWord word.toList) :
    Text.words (" ".intercalate words) = words := by
  have hchars : (" ".intercalate words).toList = [' '].intercalate (words.map String.toList) := by simp
  rw [Text.words, hchars, wordsFrom_intercalate (by decide) (List.forall_mem_map.2 h), List.map_map]
  simp [Function.comp_def]

theorem isWord_of_mem_words {text word : String} (h : word ∈ Text.words text) : IsWord word.toList := by
  obtain ⟨chars, hm, rfl⟩ := List.mem_map.1 h
  rw [String.toList_ofList]
  exact isWord_of_mem_wordsFrom (by simp) hm

end RichText.Text

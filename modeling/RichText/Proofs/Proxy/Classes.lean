import RichText.Proofs.Distinct
import RichText.Proofs.Proxy.Replace
import RichText.Proofs.Text.Words

/-!
Writing class lists.

The tokens of a class list are stored nowhere: each operation splits the `class` attribute as the proxy reads it, and
writes the tokens joined by single spaces. What was written is read back, because the tokens that a list may hold are
just the words that a text can be split into.
-/

namespace RichText.ElementProxy

open Effects

variable {p : ElementProxy} {tokens : List String} {token new : String}

/-! ### Tokens -/

/-- A token is a text that is one word. -/
theorem isToken_iff : isToken token = true ↔ Text.IsWord token.toList := by
  simp [isToken, Text.IsWord]

theorem isToken_of_mem_classes (h : token ∈ p.classes) : isToken token = true :=
  isToken_iff.2 (Text.isWord_of_mem_words (List.mem_eraseDups.1 h))

theorem nodup_classes (p : ElementProxy) : p.classes.Nodup := Distinct.nodup_eraseDups _

theorem requireTokens_ok (hm : p.isMutable = true) (operation : Operation)
    (ht : ∀ token ∈ tokens, isToken token = true) : requireTokens operation tokens p = (.ok (), p) := by
  have hvalid : (tokens.filter fun token => !isToken token) = [] := by simpa using ht
  rw [requireTokens, bind_ok (onNode_ok (NodeProxy.requireMutable_ok hm operation)), hvalid]
  rfl

/-- An operation that is given invalid tokens names them all. -/
theorem requireTokens_error (hm : p.isMutable = true) (operation : Operation)
    (h : ∃ token ∈ tokens, isToken token = false) :
    requireTokens operation tokens p =
      (.error (.invalidTokens (tokens.filter fun token => !isToken token)), p) := by
  have hinvalid : (tokens.filter fun token => !isToken token) ≠ [] := by simpa using h
  rw [requireTokens, bind_ok (onNode_ok (NodeProxy.requireMutable_ok hm operation))]
  simp [hinvalid]

/-! ### Writing a class list -/

theorem setAttribute_ok (hm : p.isMutable = true) (key value : String) :
    setAttribute key value p = (.ok (), { p with overrides := Keyed.put key (some value) p.overrides }) := by
  rw [setAttribute, bind_ok (onNode_ok (NodeProxy.requireMutable_ok hm _))]
  rfl

theorem attribute?_put (p : ElementProxy) (key k : String) (value : Option String) :
    attribute? { p with overrides := Keyed.put key value p.overrides } k =
      if k = key then value else p.attribute? k := by
  rw [attribute?, Keyed.lookup_put]
  by_cases h : k = key
  · rw [if_pos h, if_pos h]
  · rw [if_neg h, if_neg h]
    rfl

/-- `q` is `p` with another class list. The class attribute that `q` reads is made of its tokens and single spaces;
there is none if there was none before and no token is left. Nothing else is read differently. -/
structure Reclassed (p : ElementProxy) (tokens : List String) (q : ElementProxy) : Prop where
  value : q.attribute? "class" =
    if tokens = [] ∧ p.attribute? "class" = none then none else some (" ".intercalate tokens)
  words : Text.words q.classValue = tokens
  classes : q.classes = tokens
  others : ∀ key, key ≠ "class" → q.attribute? key = p.attribute? key
  frame : { q with overrides := p.overrides } = p

/-- A list of distinct tokens that is written is the list that is read. -/
theorem setClasses_ok (hm : p.isMutable = true) (ht : ∀ token ∈ tokens, isToken token = true) (hn : tokens.Nodup) :
    ∃ q, setClasses tokens p = (.ok (), q) ∧ p.Reclassed tokens q := by
  by_cases hempty : tokens = [] ∧ p.attribute? "class" = none
  · obtain ⟨rfl, habsent⟩ := hempty
    have hwords : Text.words p.classValue = [] := by
      rw [classValue, habsent]
      rfl
    refine ⟨p, by simp [setClasses, hasAttribute, run_bind, habsent], ?_, hwords, ?_, fun _ _ => rfl, rfl⟩
    · rw [if_pos ⟨rfl, habsent⟩, habsent]
    · rw [classes, hwords]
      rfl
  · have hwrite : setClasses tokens p = setAttribute "class" (" ".intercalate tokens) p := by
      have hcond : (tokens.isEmpty && !p.hasAttribute "class") = false := by
        simpa [hasAttribute, ← Option.ne_none_iff_isSome] using hempty
      rw [setClasses, bind_ok (run_get p), hcond]
      rfl
    have hread := attribute?_put p "class" "class" (some (" ".intercalate tokens))
    rw [if_pos rfl] at hread
    have hwords : Text.words (classValue { p with
        overrides := Keyed.put "class" (some (" ".intercalate tokens)) p.overrides }) = tokens := by
      rw [classValue, hread]
      exact Text.words_intercalate fun token hm => isToken_iff.1 (ht token hm)
    refine ⟨_, hwrite.trans (setAttribute_ok hm _ _), ?_, hwords, ?_, fun key hk => ?_, rfl⟩
    · rw [hread, if_neg hempty]
    · rw [classes, hwords, Distinct.eraseDups_of_nodup hn]
    · rw [attribute?_put, if_neg hk]

/-! ### Adding and removing tokens -/

/-- A list of tokens with those of `tokens` that it does not have, in order. -/
def withTokens (tokens current : List String) : List String :=
  current ++ (tokens.filter fun token => token ∉ current).eraseDups

/-- A list of tokens without those of `tokens`. -/
def withoutTokens (tokens current : List String) : List String := current.filter fun token => token ∉ tokens

theorem addClasses_ok (hm : p.isMutable = true) (ht : ∀ token ∈ tokens, isToken token = true) :
    ∃ q, addClasses tokens p = (.ok (), q) ∧ p.Reclassed (withTokens tokens p.classes) q := by
  rw [addClasses, bind_ok (requireTokens_ok hm _ ht), bind_ok (run_get p), Distinct.foldl_add]
  refine setClasses_ok hm (fun token h => ?_) (List.nodup_append.2 ⟨p.nodup_classes, Distinct.nodup_eraseDups _, ?_⟩)
  · obtain h | h := List.mem_append.1 h
    · exact isToken_of_mem_classes h
    · exact ht token (List.mem_of_mem_filter (List.mem_eraseDups.1 h))
  · rintro token hold _ hnew rfl
    have hnot := (List.mem_filter.1 (List.mem_eraseDups.1 hnew)).2
    exact of_decide_eq_true hnot hold

theorem removeClasses_ok (hm : p.isMutable = true) (ht : ∀ token ∈ tokens, isToken token = true) :
    ∃ q, removeClasses tokens p = (.ok (), q) ∧ p.Reclassed (withoutTokens tokens p.classes) q := by
  rw [removeClasses, bind_ok (requireTokens_ok hm _ ht), bind_ok (run_get p)]
  exact setClasses_ok hm (fun token h => isToken_of_mem_classes (List.mem_of_mem_filter h)) (p.nodup_classes.filter _)

theorem toggleClass_ok (hm : p.isMutable = true) (ht : isToken token = true) (force : Option Bool) :
    ∃ q, toggleClass token force p = (.ok (force.getD (token ∉ p.classes)), q) ∧
      p.Reclassed (if force.getD (token ∉ p.classes) then withTokens [token] p.classes
        else withoutTokens [token] p.classes) q := by
  have hvalid : ∀ t ∈ [token], isToken t = true := by simpa using ht
  rw [toggleClass, bind_ok (requireTokens_ok hm _ hvalid), bind_ok (run_get p)]
  cases hw : force.getD (decide (token ∉ p.classes)) with
  | true =>
    obtain ⟨q, hq, hre⟩ := addClasses_ok hm hvalid
    exact ⟨q, by simp [run_map, hq], hre⟩
  | false =>
    obtain ⟨q, hq, hre⟩ := removeClasses_ok hm hvalid
    exact ⟨q, by simp [run_map, hq], hre⟩

theorem mem_withTokens : token ∈ withTokens [token] tokens := by
  by_cases h : token ∈ tokens
  · exact List.mem_append_left _ h
  · exact List.mem_append_right _ (by simp [h])

theorem not_mem_withoutTokens : token ∉ withoutTokens [token] tokens := by
  simp [withoutTokens]

/-- Adding, removing and toggling class tokens. Invalid tokens are all named by the error, and nothing is written then.
Otherwise the class list is written with the new tokens that it did not have, or without the old ones; and a toggled
token is in the list afterwards exactly if the answer says so. -/
theorem classList_updates (hm : p.isMutable = true) (tokens : List String) :
    ((∃ token ∈ tokens, isToken token = false) →
      addClasses tokens p = (.error (.invalidTokens (tokens.filter fun token => !isToken token)), p) ∧
      removeClasses tokens p = (.error (.invalidTokens (tokens.filter fun token => !isToken token)), p)) ∧
    ((∀ token ∈ tokens, isToken token = true) →
      (∃ q, addClasses tokens p = (.ok (), q) ∧ p.Reclassed (withTokens tokens p.classes) q) ∧
      ∃ q, removeClasses tokens p = (.ok (), q) ∧ p.Reclassed (withoutTokens tokens p.classes) q) ∧
    ∀ token force,
      (isToken token = false → toggleClass token force p = (.error (.invalidTokens [token]), p)) ∧
      (isToken token = true → ∃ q, toggleClass token force p = (.ok (force.getD (token ∉ p.classes)), q) ∧
        (token ∈ q.classes ↔ force.getD (token ∉ p.classes) = true) ∧
        p.Reclassed (if force.getD (token ∉ p.classes) then withTokens [token] p.classes
          else withoutTokens [token] p.classes) q) := by
  refine ⟨fun hinvalid => ⟨?_, ?_⟩, fun hvalid => ⟨addClasses_ok hm hvalid, removeClasses_ok hm hvalid⟩,
    fun token force => ⟨fun hinvalid => ?_, fun hvalid => ?_⟩⟩
  · rw [addClasses, bind_error (requireTokens_error hm _ hinvalid)]
  · rw [removeClasses, bind_error (requireTokens_error hm _ hinvalid)]
  · rw [toggleClass, bind_error (requireTokens_error hm _ ⟨token, List.mem_singleton_self token, hinvalid⟩)]
    simp [hinvalid]
  · obtain ⟨q, hq, hre⟩ := toggleClass_ok hm hvalid force
    refine ⟨q, hq, ?_, hre⟩
    rw [hre.classes]
    cases force.getD (decide (token ∉ p.classes)) with
    | true => simpa using mem_withTokens
    | false => simpa using not_mem_withoutTokens

/-- A proxy of `b` whose class attribute has repeated tokens and several kinds of white space. -/
def spaced : ElementProxy :=
  (setAttribute "class" " a\u00a0b\t\tc a\u2003" (ofNode classified (some 2) .standard)).2

theorem classes_spaced : spaced.classes = ["a", "b", "c"] := by decide +kernel

theorem classList_spaced :
    addClasses ["d", "e\u2003f", ""] spaced = (.error (.invalidTokens ["e\u2003f", ""]), spaced) ∧
      (∃ q, addClasses ["d", "b", "d"] spaced = (.ok (), q) ∧ spaced.Reclassed ["a", "b", "c", "d"] q) ∧
      (∃ q, removeClasses ["d", "b", "d"] spaced = (.ok (), q) ∧ spaced.Reclassed ["a", "c"] q) ∧
      ∃ q, toggleClass "b" none spaced = (.ok false, q) ∧ spaced.Reclassed ["a", "c"] q := by
  have hadded : withTokens ["d", "b", "d"] spaced.classes = ["a", "b", "c", "d"] := by
    rw [classes_spaced]
    decide
  have hremoved : withoutTokens ["d", "b", "d"] spaced.classes = ["a", "c"] := by
    rw [classes_spaced]
    decide
  have htoggled : withoutTokens ["b"] spaced.classes = ["a", "c"] := by
    rw [classes_spaced]
    decide
  have hwanted : decide ("b" ∉ spaced.classes) = false := by
    rw [classes_spaced]
    decide
  obtain ⟨hinvalid, -, htoggle⟩ := classList_updates (p := spaced) rfl ["d", "e\u2003f", ""]
  obtain ⟨-, hvalid, -⟩ := classList_updates (p := spaced) rfl ["d", "b", "d"]
  obtain ⟨hadd, hremove⟩ := hvalid (by decide +kernel)
  obtain ⟨q, hq, -, hre⟩ := (htoggle "b" none).2 (by decide +kernel)
  rw [hadded] at hadd
  rw [hremoved] at hremove
  rw [Option.getD_none, hwanted] at hq hre
  rw [if_neg (by decide), htoggled] at hre
  have hrefused := (hinvalid ⟨"", by simp, by decide +kernel⟩).1
  have hnamed : (["d", "e\u2003f", ""].filter fun token => !isToken token) = ["e\u2003f", ""] := by decide +kernel
  rw [hnamed] at hrefused
  exact ⟨hrefused, hadd, hremove, q, hq, hre⟩

/-! ### Replacing a token -/

theorem not_mem_of_cut {before after : List String} (h : (before ++ token :: after).Nodup) :
    token ∉ before ∧ token ∉ after := by
  have hnot : token ∉ before ++ after := (List.nodup_middle.1 h).notMem
  rwa [List.mem_append, not_or] at hnot

/-- A token that is exchanged gives its place to the new one, or leaves it empty if the list has the new one already. -/
theorem exchangeToken_cut {before after : List String} (h : (before ++ token :: after).Nodup) :
    exchangeToken token new (before ++ token :: after) =
      before ++ (if new ∈ before ++ token :: after then [] else [new]) ++ after := by
  obtain ⟨hbefore, hafter⟩ := not_mem_of_cut h
  rw [exchangeToken]
  split
  · rw [List.erase_append_right _ hbefore, List.erase_cons_head, List.append_nil]
  · have hkept : ∀ l : List String, token ∉ l → (l.map fun t => if t = token then new else t) = l := by
      intro l hl
      refine (List.map_congr_left fun t ht => ?_).trans (List.map_id l)
      rw [if_neg (ne_of_mem_of_not_mem ht hl)]
      rfl
    simp [hkept _ hbefore, hkept _ hafter]

theorem nodup_exchangeToken (h : tokens.Nodup) (hm : token ∈ tokens) : (exchangeToken token new tokens).Nodup := by
  obtain ⟨before, after, rfl⟩ := List.append_of_mem hm
  have hrest : (before ++ after).Nodup := (List.nodup_middle.1 h).of_cons
  rw [exchangeToken_cut h]
  split
  · rwa [List.append_nil]
  · rename_i hnew
    simp only [List.mem_append, List.mem_cons, not_or] at hnew
    rw [List.append_assoc, List.singleton_append, List.nodup_middle, List.nodup_cons]
    exact ⟨by simp [hnew], hrest⟩

/-- Then the new token is in the list, and the old one is not. -/
theorem mem_exchangeToken (h : tokens.Nodup) (hm : token ∈ tokens) (hne : token ≠ new) {t : String} :
    t ∈ exchangeToken token new tokens ↔ t = new ∨ (t ∈ tokens ∧ t ≠ token) := by
  obtain ⟨before, after, rfl⟩ := List.append_of_mem hm
  obtain ⟨hbefore, hafter⟩ := not_mem_of_cut h
  rw [exchangeToken_cut h]
  split <;> grind

theorem mem_of_mem_exchangeToken {t : String} (h : t ∈ exchangeToken token new tokens) : t = new ∨ t ∈ tokens := by
  rw [exchangeToken] at h
  split at h
  · exact .inr (List.mem_of_mem_erase h)
  · obtain ⟨t', ht', rfl⟩ := List.mem_map.1 h
    split
    · exact .inl rfl
    · exact .inr ht'

/-- The other tokens of the list are kept in their order. -/
theorem filter_exchangeToken (h : tokens.Nodup) (hm : token ∈ tokens) :
    ((exchangeToken token new tokens).filter fun t => t ∈ tokens) = tokens.filter (· ≠ token) := by
  obtain ⟨before, after, rfl⟩ := List.append_of_mem hm
  obtain ⟨hbefore, hafter⟩ := not_mem_of_cut h
  have hold : ∀ l : List String, token ∉ l → l.filter (· ≠ token) = l := fun l hl =>
    List.filter_eq_self.2 fun t ht => by simpa using ne_of_mem_of_not_mem ht hl
  have hkept : ∀ l : List String, l ⊆ before ++ token :: after →
      (l.filter fun t => t ∈ before ++ token :: after) = l := fun l hl =>
    List.filter_eq_self.2 fun t ht => decide_eq_true (hl ht)
  have hnew : ((if new ∈ before ++ token :: after then [] else [new]).filter
      fun t => t ∈ before ++ token :: after) = [] := by
    split <;> simp_all
  rw [exchangeToken_cut h, List.filter_append, List.filter_append, hnew, hkept before (by simp), hkept after (by simp),
    List.append_nil, List.filter_append, hold before hbefore, List.filter_cons_of_neg (by simp), hold after hafter]

theorem exchangeToken_self (h : tokens.Nodup) (hm : token ∈ tokens) :
    exchangeToken token token tokens = tokens.filter (· ≠ token) := by
  rw [exchangeToken, if_pos hm, h.erase_eq_filter]
  exact List.filter_congr fun t _ => by simp [bne, beq_eq_decide]

theorem replaceClass_absent (hm : p.isMutable = true) (ht : isToken token = true) (hn : isToken new = true)
    (h : token ∉ p.classes) : replaceClass token new p = (.ok false, p) := by
  rw [replaceClass, bind_ok (requireTokens_ok hm _ (by simp [ht, hn])), bind_ok (run_get p)]
  simp [h]

theorem replaceClass_ok (hm : p.isMutable = true) (ht : isToken token = true) (hn : isToken new = true)
    (h : token ∈ p.classes) :
    ∃ q, replaceClass token new p = (.ok true, q) ∧ p.Reclassed (exchangeToken token new p.classes) q := by
  have hvalid : ∀ t ∈ exchangeToken token new p.classes, isToken t = true := by
    intro t hmem
    obtain rfl | hmem := mem_of_mem_exchangeToken hmem
    · exact hn
    · exact isToken_of_mem_classes hmem
  obtain ⟨q, hq, hre⟩ := setClasses_ok hm hvalid (nodup_exchangeToken p.nodup_classes h)
  refine ⟨q, ?_, hre⟩
  rw [replaceClass, bind_ok (requireTokens_ok hm _ (by simp [ht, hn])), bind_ok (run_get p)]
  simp [h, run_map, hq]

/-- Replacing a token by another one. The answer says whether the list had the token; if not, nothing is written. The
new token is in the list once then, in the place of the old one if it was not in the list before, and the other tokens
are kept in their order. A token that is replaced by itself is removed. -/
theorem replaceClass_exchanges (hm : p.isMutable = true) (ht : isToken token = true) (hn : isToken new = true) :
    (token ∉ p.classes → replaceClass token new p = (.ok false, p)) ∧
    (token ∈ p.classes → ∃ q tokens, replaceClass token new p = (.ok true, q) ∧ p.Reclassed tokens q ∧
      (token ≠ new → tokens.count new = 1 ∧ token ∉ tokens ∧
        (tokens.filter fun t => t ∈ p.classes) = p.classes.filter (· ≠ token) ∧
        (∀ t ∈ tokens, t = new ∨ t ∈ p.classes) ∧
        ∀ before after, p.classes = before ++ token :: after → new ∉ p.classes → tokens = before ++ new :: after) ∧
      (token = new → tokens = p.classes.filter (· ≠ token))) := by
  refine ⟨replaceClass_absent hm ht hn, fun hmem => ?_⟩
  obtain ⟨q, hq, hre⟩ := replaceClass_ok hm ht hn hmem
  have hnodup := p.nodup_classes
  refine ⟨q, _, hq, hre, fun hne => ⟨?_, ?_, filter_exchangeToken hnodup hmem, fun t => mem_of_mem_exchangeToken, ?_⟩,
    ?_⟩
  · have hnew : new ∈ exchangeToken token new p.classes := (mem_exchangeToken hnodup hmem hne).2 (.inl rfl)
    exact List.count_eq_one_of_mem (nodup_exchangeToken hnodup hmem) hnew
  · rw [mem_exchangeToken hnodup hmem hne]
    rintro (he | ⟨-, he⟩)
    · exact hne he
    · exact he rfl
  · intro before after hcut hnew
    rw [hcut] at hnodup hnew ⊢
    rw [exchangeToken_cut hnodup, if_neg hnew, List.append_assoc, List.singleton_append]
  · rintro rfl
    exact exchangeToken_self hnodup hmem

theorem replaceClass_spaced :
    replaceClass "d" "a" spaced = (.ok false, spaced) ∧
      ∃ q tokens, replaceClass "b" "a" spaced = (.ok true, q) ∧ spaced.Reclassed tokens q ∧ tokens.count "a" = 1 ∧
        "b" ∉ tokens ∧ (tokens.filter fun t => t ∈ spaced.classes) = ["a", "c"] := by
  have hmem : "b" ∈ spaced.classes := by
    rw [classes_spaced]
    decide
  have hothers : spaced.classes.filter (· ≠ "b") = ["a", "c"] := by
    rw [classes_spaced]
    decide
  have hnot : "d" ∉ spaced.classes := by
    rw [classes_spaced]
    decide
  have ha : isToken "a" = true := by decide +kernel
  have hb : isToken "b" = true := by decide +kernel
  have hd : isToken "d" = true := by decide +kernel
  obtain ⟨habsent, -⟩ := replaceClass_exchanges (p := spaced) rfl hd ha
  obtain ⟨-, hpresent⟩ := replaceClass_exchanges (p := spaced) rfl hb ha
  obtain ⟨q, tokens, hq, hre, hexchanged, -⟩ := hpresent hmem
  obtain ⟨hcount, hgone, hkept, -⟩ := hexchanged (by decide)
  exact ⟨habsent hnot, q, tokens, hq, hre, hcount, hgone, hkept.trans hothers⟩

/-- A token that is replaced by itself is lost, although the answer is that it was replaced. -/
theorem replaceClass_loses :
    spaced.isMutable = true ∧ isToken "b" = true ∧ "b" ∈ spaced.classes ∧
      (replaceClass "b" "b" spaced).1 = .ok true ∧ (replaceClass "b" "b" spaced).2.classes = ["a", "c"] ∧
      (replaceClass "b" "b" spaced).2.classes.count "b" = 0 := by
  decide +kernel

end RichText.ElementProxy

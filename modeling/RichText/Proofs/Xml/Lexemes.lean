import RichText.Proofs.Xml.Faithful
import RichText.Text.Blank

/-!
The lexemes of an XML text, and how they are told apart.

Printing writes one lexeme after another: start and end tags, single characters of texts, comments and processing
instructions. Each lexeme shows where it ends, whatever follows it, so that the lexemes can be read off their text.
-/

namespace RichText.Xml

open Markup

/-! ### Texts that show where they end -/

section

variable {α : Type} {valid : α → Prop} {write : α → List Char}

/-- What is written for a member shows which member it is and where it ends. -/
def Cuts (valid : α → Prop) (write : α → List Char) : Prop :=
  ∀ {a b}, valid a → valid b → ∀ {r s}, write a ++ r = write b ++ s → a = b ∧ r = s

/-- Members one after another, up to a text that does not begin with one. -/
theorem Cuts.flatMap (h : Cuts valid write) {l m : List α} (hl : ∀ a ∈ l, valid a) (hm : ∀ b ∈ m, valid b)
    {r s : List Char} (hr : ∀ a, valid a → ∀ x, r ≠ write a ++ x) (hs : ∀ a, valid a → ∀ x, s ≠ write a ++ x)
    (he : l.flatMap write ++ r = m.flatMap write ++ s) : l = m ∧ r = s := by
  induction l generalizing m with
  | nil =>
    cases m with
    | nil => exact ⟨rfl, he⟩
    | cons b m =>
      refine absurd ?_ (hr b (hm b List.mem_cons_self) (m.flatMap write ++ s))
      simpa using he
  | cons a l ih =>
    cases m with
    | nil =>
      refine absurd ?_ (hs a (hl a List.mem_cons_self) (l.flatMap write ++ r))
      simpa using he.symm
    | cons b m =>
      rw [List.flatMap_cons, List.flatMap_cons, List.append_assoc, List.append_assoc] at he
      obtain ⟨rfl, hrest⟩ := h (hl a List.mem_cons_self) (hm b List.mem_cons_self) he
      obtain ⟨rfl, htail⟩ := ih (fun x hx => hl x (List.mem_cons_of_mem _ hx))
        (fun x hx => hm x (List.mem_cons_of_mem _ hx)) hrest
      exact ⟨rfl, htail⟩

end

/-- A run of characters ends where the first other one stands. -/
theorem run_cut (ok : Char → Prop) {l m : List Char} (hl : ∀ c ∈ l, ok c) (hm : ∀ c ∈ m, ok c) {c d : Char}
    (hc : ¬ ok c) (hd : ¬ ok d) {r s : List Char} (h : l ++ c :: r = m ++ d :: s) : l = m ∧ c :: r = d :: s := by
  have hcuts : Cuts ok fun c => [c] := by
    rintro a b - - r s ⟨⟩
    exact ⟨rfl, rfl⟩
  refine hcuts.flatMap hl hm ?_ ?_ (by simpa using h)
  · rintro a ha x ⟨⟩
    exact hc ha
  · rintro a ha x ⟨⟩
    exact hd ha

/-- A mark does not begin inside a text before its first occurrence, where its last character stands only at its
end. -/
theorem not_mark_before {init : List Char} {e : Char} (he : e ∉ init) {y r s : List Char} (hy : y ≠ [])
    (hn : ¬ init ++ [e] <:+: y) : init ++ e :: r ≠ y ++ (init ++ e :: s) := by
  intro h
  rcases Nat.lt_or_ge init.length y.length with hlt | hge
  · -- the mark would stand inside the text
    have hp : init ++ [e] <+: y := by
      refine List.prefix_of_prefix_length_le ⟨r, by simp⟩ (h ▸ List.prefix_append y _) ?_
      rw [List.length_append, List.length_singleton]
      omega
    exact hn hp.isInfix
  · -- the last character of the mark would stand inside the mark
    have hpos := List.length_pos_iff.2 hy
    have hget := congrArg (fun l => l[init.length]?) h
    rw [List.getElem?_append_right (Nat.le_refl _), List.getElem?_append_right hge, Nat.sub_self,
      List.getElem?_cons_zero, List.getElem?_append_left (Nat.sub_lt_of_pos_le hpos hge)] at hget
    exact he (List.mem_of_getElem? hget.symm)

/-- A text without a mark ends where the mark stands first. -/
theorem mark_cut (init : List Char) {e : Char} (he : e ∉ init) {x y : List Char} (hx : ¬ init ++ [e] <:+: x)
    (hy : ¬ init ++ [e] <:+: y) {r s : List Char} (h : x ++ (init ++ e :: r) = y ++ (init ++ e :: s)) :
    x = y ∧ r = s := by
  have hcase : ∀ {x y r s : List Char}, ¬ init ++ [e] <:+: y → x ++ (init ++ e :: r) = y ++ (init ++ e :: s) →
      x.length ≤ y.length → x = y := by
    intro x y r s hy h hle
    obtain ⟨z, rfl⟩ := List.prefix_of_prefix_length_le (List.prefix_append x _) (h ▸ List.prefix_append y _) hle
    rw [List.append_assoc, List.append_right_inj] at h
    by_cases hz : z = []
    · rw [hz, List.append_nil]
    · exact absurd h (not_mark_before he hz fun hi => hy (hi.trans (List.suffix_append x z).isInfix))
  have hxy : x = y := by
    rcases Nat.le_total x.length y.length with hle | hle
    · exact hcase hy h hle
    · exact (hcase hx h.symm hle).symm
  subst hxy
  exact ⟨rfl, by simpa using h⟩

/-! ### Lexemes -/

/-- What an XML text is made of. A text node gives one lexeme for each character. -/
inductive Lexeme where
  | opening (tag : StartTag)
  | closing (name : String)
  | character (c : Char)
  | comment (content : String)
  | instruction (target content : String)
  | doctype (name : String)
  deriving DecidableEq, Repr

/-- How a lexeme is written. -/
def Lexeme.text : Lexeme → String
  | opening tag => tag.text
  | closing name => "</" ++ name ++ ">"
  | character c => Escape.textChar c
  | comment content => Escape.comment content
  | instruction target content => Escape.instruction target content
  | doctype name => Escape.doctype name

/-- The lexemes of the XML text of a forest. -/
def lexemes (scope : Scope) : Forest Content → List Lexeme
  | .nil => []
  | .node content below rest =>
    let own :=
      match content with
      | .document => lexemes scope below
      | .doctype name _ _ => [.doctype name]
      | .element name attributes =>
        let inner :=
          match below with
          | .nil => []
          | .node .. => lexemes (scope.declare name attributes).scope below ++ [.closing name.written]
        .opening (startTag scope name attributes (isNil below)) :: inner
      | .text content => content.toList.map .character
      | .comment content => [.comment content]
      | .instruction target content => [.instruction target content]
    own ++ lexemes scope rest

/-- What is printed is the text of the lexemes. -/
theorem print_eq_join (scope : Scope) (f : Forest Content) :
    print scope f = String.join ((lexemes scope f).map Lexeme.text) := by
  induction f generalizing scope with
  | nil => rfl
  | node content below rest ihb ihr =>
    rw [print.eq_def, lexemes.eq_def, List.map_append, String.join_append, ← ihr]
    dsimp only
    congr 1
    cases content with
    | document => exact ihb scope
    | element name attributes =>
      cases below with
      | nil =>
        simp [Lexeme.text, isNil, StartTag.text, startTag, ownAttributes, Escape.attributes, Function.comp_def,
          String.append_assoc]
      | node _ _ _ =>
        simp [Lexeme.text, isNil, StartTag.text, startTag, ownAttributes, Escape.attributes, ihb, Function.comp_def,
          String.append_assoc]
    | text content => simp [Escape.text, Lexeme.text, Function.comp_def]
    | _ => simp [Lexeme.text]

/-! ### Telling lexemes apart -/

/-- A character of names. It is no white space and none of the characters that markup is made of. -/
def NameChar (c : Char) : Prop := Text.isBlank c = false ∧ c ∉ ['<', '>', '&', '"', '\'', '=', '/', '?', '!']

instance (c : Char) : Decidable (NameChar c) := inferInstanceAs (Decidable (_ ∧ _))

/-- What can be written as the name of an element or an attribute. -/
def IsName (written : String) : Prop := written ≠ "" ∧ ∀ c ∈ written.toList, NameChar c

instance (written : String) : Decidable (IsName written) :=
  -- not by going through all characters that there are
  haveI : Decidable (∀ c ∈ written.toList, NameChar c) := List.decidableBAll _ _
  inferInstanceAs (Decidable (_ ∧ _))

theorem NameChar.ne {c d : Char} (h : NameChar c)
    (hd : d ∈ ['<', '>', '&', '"', '\'', '=', '/', '?', '!'] ∨ Text.isBlank d = true) : c ≠ d := by
  rintro rfl
  rcases hd with hd | hd
  · exact h.2 hd
  · exact absurd (h.1.symm.trans hd) Bool.false_ne_true

theorem textChar_cuts : Cuts (fun _ => True) fun c => (Escape.textChar c).toList := by
  intro a b _ _ r s h
  dsimp only at h
  unfold Escape.textChar at h
  split at h <;> split at h <;> simp at h <;> grind

theorem valueChar_cuts : Cuts (fun _ => True) fun c => (Escape.valueChar c).toList := by
  intro a b _ _ r s h
  dsimp only at h
  unfold Escape.valueChar at h
  split at h <;> split at h <;> simp at h <;> grind

theorem toList_assigned (written value : String) : (Escape.assigned written value).toList =
    ' ' :: (written.toList ++ '=' :: '"' :: ((Escape.value value).toList ++ ['"'])) := by
  simp [Escape.assigned]

/-- A value ends at the first quote. -/
theorem value_cut {v w : String} {r s : List Char}
    (h : (Escape.value v).toList ++ '"' :: r = (Escape.value w).toList ++ '"' :: s) : v = w ∧ r = s := by
  have hquote : ∀ (r : List Char) (c : Char), True → ∀ x, '"' :: r ≠ (Escape.valueChar c).toList ++ x := by
    intro r c _ x hx
    unfold Escape.valueChar at hx
    split at hx <;> simp at hx
    rename_i hc _ _
    exact hc hx.1.symm
  simp only [Escape.value, String.toList_join, List.flatMap_map] at h
  obtain ⟨hv, hr⟩ := valueChar_cuts.flatMap (fun _ _ => trivial) (fun _ _ => trivial) (hquote r) (hquote s) h
  exact ⟨String.toList_inj.1 hv, (List.cons.inj hr).2⟩

/-- An attribute ends with its value. -/
theorem assigned_cuts :
    Cuts (fun e : String × String => IsName e.1) fun e => (Escape.assigned e.1 e.2).toList := by
  rintro ⟨n, v⟩ ⟨m, w⟩ hn hm r s h
  simp only [toList_assigned, List.cons_append, List.append_assoc, List.cons.injEq, true_and, List.nil_append] at h
  have hequals : ¬ (fun c => c ≠ '=') '=' := fun hne => hne rfl
  obtain ⟨hname, hrest⟩ := run_cut (fun c => c ≠ '=') (fun c hc => (hn.2 c hc).ne (by simp))
    (fun c hc => (hm.2 c hc).ne (by simp)) hequals hequals h
  obtain ⟨rfl, htail⟩ := value_cut (List.cons.inj (List.cons.inj hrest).2).2
  obtain rfl : n = m := String.toList_inj.1 hname
  exact ⟨rfl, htail⟩

/-- A start tag with names that can be written. -/
def StartTag.Valid (tag : StartTag) : Prop := IsName tag.name ∧ ∀ e ∈ tag.attributes, IsName e.1

/-- The end of a start tag. -/
def StartTag.close (tag : StartTag) : List Char := if tag.closed then ['/', '>'] else ['>']

theorem StartTag.toList_text (tag : StartTag) : tag.text.toList =
    '<' :: (tag.name.toList ++ (tag.attributes.flatMap (fun e => (Escape.assigned e.1 e.2).toList) ++ tag.close)) := by
  rw [text, close]
  cases tag.closed <;> simp [String.toList_join, List.flatMap_map]

/-- What follows the name of a start tag begins with a character that is none of a name. -/
theorem StartTag.after_name (tag : StartTag) (r : List Char) :
    ∃ c x, tag.attributes.flatMap (fun e => (Escape.assigned e.1 e.2).toList) ++ tag.close ++ r = c :: x ∧
      ¬ NameChar c := by
  cases tag.attributes with
  | nil =>
    cases hc : tag.closed with
    | false => exact ⟨'>', r, by simp [close, hc], fun h => h.2 (by simp)⟩
    | true => exact ⟨'/', '>' :: r, by simp [close, hc], fun h => h.2 (by simp)⟩
  | cons e rest =>
    simp only [List.flatMap_cons, toList_assigned, List.cons_append]
    exact ⟨' ', _, rfl, fun h => absurd h.1 (by decide)⟩

theorem startTag_cuts : Cuts StartTag.Valid fun tag => tag.text.toList := by
  intro a b ha hb r s h
  simp only [StartTag.toList_text, List.cons_append, List.append_assoc, List.cons.injEq, true_and] at h
  obtain ⟨c, x, hx, hc⟩ := a.after_name r
  obtain ⟨d, y, hy, hd⟩ := b.after_name s
  rw [List.append_assoc] at hx hy
  rw [hx, hy] at h
  obtain ⟨hname, hrest⟩ := run_cut NameChar ha.1.2 hb.1.2 hc hd h
  rw [← hx, ← hy] at hrest
  have hend : ∀ (tag : StartTag) (r : List Char) (e : String × String), IsName e.1 → ∀ x,
      tag.close ++ r ≠ (Escape.assigned e.1 e.2).toList ++ x := by
    intro tag r e _ x he
    rw [toList_assigned, StartTag.close] at he
    split at he <;> simp at he
  obtain ⟨hattributes, hclose⟩ := assigned_cuts.flatMap ha.2 hb.2 (hend a r) (hend b s) hrest
  obtain ⟨n, as, closed⟩ := a
  obtain ⟨m, bs, closed'⟩ := b
  simp only [StartTag.close] at hclose
  obtain rfl := String.toList_inj.1 hname
  obtain rfl : as = bs := hattributes
  cases closed <;> cases closed' <;> simp_all

/-- A lexeme that can be told from others. -/
def Lexeme.Valid : Lexeme → Prop
  | opening tag => tag.Valid
  | closing name => IsName name
  | character _ => True
  | comment content => ¬ "-->".toList <:+: content.toList
  | instruction target content =>
    (∀ c ∈ target.toList, Text.isBlank c = false ∧ c ≠ '?') ∧ ¬ "?>".toList <:+: content.toList
  | doctype _ => False

theorem comment_cut {x y : String} (hx : ¬ "-->".toList <:+: x.toList) (hy : ¬ "-->".toList <:+: y.toList)
    {r s : List Char} (h : (Escape.comment x).toList ++ r = (Escape.comment y).toList ++ s) : x = y ∧ r = s := by
  simp only [Escape.comment, String.toList_append, List.append_assoc, List.append_right_inj] at h
  obtain ⟨hxy, hrs⟩ := mark_cut ['-', '-'] (by decide) hx hy h
  exact ⟨String.toList_inj.1 hxy, hrs⟩

theorem instruction_cut {t u x y : String} (ht : ∀ c ∈ t.toList, Text.isBlank c = false ∧ c ≠ '?')
    (hu : ∀ c ∈ u.toList, Text.isBlank c = false ∧ c ≠ '?') (hx : ¬ "?>".toList <:+: x.toList)
    (hy : ¬ "?>".toList <:+: y.toList) {r s : List Char}
    (h : (Escape.instruction t x).toList ++ r = (Escape.instruction u y).toList ++ s) : t = u ∧ x = y ∧ r = s := by
  have hform : ∀ (t x : String) (r : List Char), (Escape.instruction t x).toList ++ r = '<' :: '?' :: (t.toList ++
      ((if x = "" then '?' else ' ') :: if x = "" then '>' :: r else x.toList ++ ('?' :: '>' :: r))) := by
    intro t x r
    rw [Escape.instruction]
    split <;> simp
  let ok (c : Char) : Prop := Text.isBlank c = false ∧ c ≠ '?'
  have hend : ∀ x : String, ¬ ok (if x = "" then '?' else ' ') := by
    intro x
    split
    · exact fun h => h.2 rfl
    · exact fun h => absurd h.1 (by decide)
  rw [hform, hform, List.cons.injEq, List.cons.injEq] at h
  obtain ⟨htu, hrest⟩ := run_cut ok ht hu (hend x) (hend y) h.2.2
  refine ⟨String.toList_inj.1 htu, ?_⟩
  by_cases hx' : x = "" <;> by_cases hy' : y = "" <;> simp [hx', hy'] at hrest
  · exact ⟨hx'.trans hy'.symm, hrest⟩
  · obtain ⟨hxy, hrs⟩ := mark_cut ['?'] (by decide) hx hy hrest
    exact ⟨String.toList_inj.1 hxy, hrs⟩

/-- What the beginning of a text tells about its first lexeme. -/
def leading : List Char → Char
  | '<' :: c :: _ => if c ∈ ['/', '!', '?'] then c else '<'
  | _ => '>'

/-- The beginning of a lexeme. -/
def Lexeme.leading : Lexeme → Char
  | opening _ => '<'
  | closing _ => '/'
  | character _ => '>'
  | comment _ | doctype _ => '!'
  | instruction .. => '?'

theorem leading_text {lexeme : Lexeme} (h : lexeme.Valid) (r : List Char) :
    leading (lexeme.text.toList ++ r) = lexeme.leading := by
  cases lexeme with
  | opening tag =>
    obtain ⟨hne, hc⟩ := h.1
    cases hn : tag.name.toList with
    | nil => exact absurd (String.toList_inj.1 hn) hne
    | cons c rest =>
      have hchar : NameChar c := hc c (hn ▸ List.mem_cons_self)
      have hnot : c ∉ ['/', '!', '?'] := fun hm => hchar.2 (by simp at hm ⊢; tauto)
      rw [Lexeme.text, StartTag.toList_text, hn]
      simp only [List.cons_append, Xml.leading, if_neg hnot, Lexeme.leading]
  | character c =>
    have hlt : ∀ x, (Escape.textChar c).toList ++ r ≠ '<' :: x := by
      intro x hx
      unfold Escape.textChar at hx
      split at hx <;> simp at hx
      rename_i hc _
      exact hc hx.1
    rw [Lexeme.text, Xml.leading.eq_def]
    split
    · rename_i he
      exact absurd he (hlt _)
    · rfl
  | closing name => simp [Lexeme.text, Xml.leading, Lexeme.leading]
  | comment content => simp [Lexeme.text, Escape.comment, Xml.leading, Lexeme.leading]
  | instruction target content =>
    rw [Lexeme.text, Escape.instruction]
    split <;> simp [Xml.leading, Lexeme.leading]
  | doctype name => exact h.elim

/-- Every lexeme shows which one it is and where it ends. -/
theorem lexeme_cuts : Cuts Lexeme.Valid fun lexeme => lexeme.text.toList := by
  intro a b ha hb r s h
  have hleading := congrArg leading h
  dsimp only at h hleading
  rw [leading_text ha, leading_text hb] at hleading
  cases a <;> cases b <;> cases hleading
  case opening.opening a b =>
    obtain ⟨rfl, hrs⟩ := startTag_cuts ha hb h
    exact ⟨rfl, hrs⟩
  case closing.closing n m =>
    simp only [Lexeme.text, String.toList_append, List.append_assoc, List.append_right_inj] at h
    have hend : ¬ NameChar '>' := fun hc => hc.2 (by simp)
    obtain ⟨hnm, hrest⟩ := run_cut NameChar ha.2 hb.2 hend hend h
    obtain rfl := String.toList_inj.1 hnm
    exact ⟨rfl, (List.cons.inj hrest).2⟩
  case character.character c d =>
    obtain ⟨rfl, hrs⟩ := textChar_cuts trivial trivial h
    exact ⟨rfl, hrs⟩
  case comment.comment x y =>
    obtain ⟨rfl, hrs⟩ := comment_cut ha hb h
    exact ⟨rfl, hrs⟩
  case instruction.instruction t x u y =>
    obtain ⟨rfl, rfl, hrs⟩ := instruction_cut ha.1 hb.1 ha.2 hb.2 h
    exact ⟨rfl, hrs⟩
  case comment.doctype => exact hb.elim
  all_goals exact ha.elim

theorem Lexeme.text_ne_nil {lexeme : Lexeme} (h : lexeme.Valid) : lexeme.text.toList ≠ [] := by
  intro hn
  -- otherwise the lexeme would have the beginning of whatever follows it
  have hleading := leading_text h []
  have hdot := leading_text h ['<', '.']
  rw [hn] at hleading hdot
  rw [← hleading] at hdot
  cases hdot

/-- The lexemes can be read off their text. -/
theorem eq_of_join_text {l m : List Lexeme} (hl : ∀ lexeme ∈ l, lexeme.Valid) (hm : ∀ lexeme ∈ m, lexeme.Valid)
    (h : String.join (l.map Lexeme.text) = String.join (m.map Lexeme.text)) : l = m := by
  have hempty : ∀ lexeme : Lexeme, lexeme.Valid → ∀ x, [] ≠ lexeme.text.toList ++ x := by
    intro lexeme ht x hx
    exact lexeme.text_ne_nil ht (List.append_eq_nil_iff.1 hx.symm).1
  refine (lexeme_cuts.flatMap hl hm hempty hempty ?_).1
  have htext := congrArg String.toList h
  simpa only [String.toList_join, List.flatMap_map, List.append_nil] using htext

end RichText.Xml

import RichText.Proofs.Conversion.Lossless
import RichText.Proofs.Xml.Decoding

/-!
Reading a forest back from its HTML text.

What is in an element is written in one of three ways: between two tags, with texts escaped; not at all, after the start
tag of a void element; and as it is, in script and style elements. The tag tells which. The lexemes are therefore those
of an XML text and one more, a whole element with raw text in it, and can be read off the text.

A reader that keeps the elements which are still open has the forest again after the lexemes. It misses what the text
does not show: namespaces, and where texts are cut.
-/

namespace RichText.Html

open Markup

variable {f : Forest Content} {name : Name} {attributes : List (Attribute String)} {below : Forest Content}

/-! ### Forests that can be read back -/

/-- An element that can be read back from its HTML text, with these nodes below it. -/
structure LegibleElement (name : Name) (attributes : List (Attribute String)) (below : Forest Content) : Prop where
  /-- The element and its attributes have names that can be written. -/
  names : ∀ n ∈ name :: attributes.map (·.name), Xml.IsName n.written
  /-- Void elements are empty. -/
  void : name.written ∈ voidTags → below = .nil
  /-- In raw elements there are only texts, and the mark of an end tag does not come in what they make up together. -/
  raw : name.written ∈ rawTags → (∀ content ∈ below.toList, content.kind = .text) ∧
    ¬ "</".toList <:+: (rawText below).toList

instance (name : Name) (attributes : List (Attribute String)) (below : Forest Content) :
    Decidable (LegibleElement name attributes below) :=
  decidable_of_iff
    ((∀ n ∈ name :: attributes.map (·.name), Xml.IsName n.written) ∧ (name.written ∈ voidTags → below = .nil) ∧
      (name.written ∈ rawTags → (∀ content ∈ below.toList, content.kind = .text) ∧
        ¬ "</".toList <:+: (rawText below).toList))
    ⟨fun ⟨hn, hv, hr⟩ => ⟨hn, hv, hr⟩, fun ⟨hn, hv, hr⟩ => ⟨hn, hv, hr⟩⟩

/-- A node that can be read back from its HTML text, and may have these nodes below it. -/
def LegibleNode (content : Content) (below : Forest Content) : Prop :=
  match content with
  | .element name attributes => LegibleElement name attributes below
  | .text _ => below = .nil
  | .comment content => ¬ "-->".toList <:+: content.toList ∧ below = .nil
  | _ => False

instance (content : Content) (below : Forest Content) : Decidable (LegibleNode content below) :=
  match content with
  | .element _ _ => inferInstanceAs (Decidable (LegibleElement _ _ _))
  | .text _ => inferInstanceAs (Decidable (_ = _))
  | .comment _ => inferInstanceAs (Decidable (_ ∧ _))
  | .document | .doctype .. | .instruction .. => inferInstanceAs (Decidable False)

/-- A forest of elements, texts and comments that can be read back from its HTML text. -/
def Legible : Forest Content → Prop
  | .nil => True
  | .node content below rest => LegibleNode content below ∧ Legible below ∧ Legible rest

instance Legible.decidable : (f : Forest Content) → Decidable (Legible f)
  | .nil => .isTrue trivial
  | .node content below rest =>
    haveI := decidable below
    haveI := decidable rest
    inferInstanceAs (Decidable (LegibleNode content below ∧ _ ∧ _))

/-! ### Lexemes -/

/-- What an HTML text is made of: what an XML text is made of, and elements with raw text. -/
inductive Lexeme where
  | plain (lexeme : Xml.Lexeme)
  | raw (tag : Xml.StartTag) (content : String)
  deriving DecidableEq, Repr

/-- How a lexeme is written. -/
def Lexeme.text : Lexeme → String
  | plain lexeme => lexeme.text
  | raw tag content => tag.text ++ content ++ "</" ++ tag.name ++ ">"

/-- The start tag of an element. It never ends the element. -/
def startTag (name : Name) (attributes : List (Attribute String)) : Xml.StartTag :=
  ⟨name.written, Xml.ownAttributes attributes, false⟩

/-- The lexemes of the HTML text of a forest. -/
def lexemes : Forest Content → List Lexeme
  | .nil => []
  | .node content below rest =>
    let own :=
      match content with
      | .document => lexemes below
      | .doctype name _ _ => [.plain (.doctype name)]
      | .element name attributes =>
        if name.written ∈ voidTags then [.plain (.opening (startTag name attributes))]
        else if name.written ∈ rawTags then [.raw (startTag name attributes) (rawText below)]
        else .plain (.opening (startTag name attributes)) :: (lexemes below ++ [.plain (.closing name.written)])
      | .text content => content.toList.map fun c => .plain (.character c)
      | .comment content => [.plain (.comment content)]
      | .instruction target content => [.plain (.instruction target content)]
    own ++ lexemes rest

theorem text_startTag (name : Name) (attributes : List (Attribute String)) :
    (startTag name attributes).text = "<" ++ name.written ++ Escape.attributes attributes ++ ">" := by
  simp [Xml.StartTag.text, startTag, Xml.ownAttributes, Escape.attributes, Function.comp_def]

/-- What is printed is the text of the lexemes. -/
theorem print_eq_join (f : Forest Content) : print f = String.join ((lexemes f).map Lexeme.text) := by
  induction f with
  | nil => rfl
  | node content below rest ihb ihr =>
    rw [print.eq_def, lexemes.eq_def, List.map_append, String.join_append, ← ihr]
    dsimp only
    congr 1
    cases content with
    | document => exact ihb
    | element name attributes =>
      dsimp only
      split
      · simp [Lexeme.text, Xml.Lexeme.text, text_startTag]
      · split
        · simp only [List.map_cons, List.map_nil, Lexeme.text, text_startTag]
          simp [startTag, String.append_assoc]
        · simp [Lexeme.text, Xml.Lexeme.text, text_startTag, ihb, String.append_assoc]
    | text content => simp [Escape.text, Lexeme.text, Xml.Lexeme.text, Function.comp_def]
    | _ => simp [Lexeme.text, Xml.Lexeme.text]

/-! ### Telling lexemes apart -/

/-- A lexeme that can be told from others. The tag of an element with raw text is none of other elements. -/
def Lexeme.Valid : Lexeme → Prop
  | plain (.opening tag) => tag.Valid ∧ tag.name ∉ rawTags
  | plain lexeme => lexeme.Valid
  | raw tag content => tag.Valid ∧ tag.name ∈ rawTags ∧ ¬ "</".toList <:+: content.toList

theorem Lexeme.valid_of_plain {lexeme : Xml.Lexeme} (h : (plain lexeme).Valid) : lexeme.Valid := by
  cases lexeme with
  | opening tag => exact h.1
  | _ => exact h

theorem toList_raw (tag : Xml.StartTag) (content : String) (r : List Char) :
    (Lexeme.raw tag content).text.toList ++ r =
      tag.text.toList ++ (content.toList ++ (['<'] ++ '/' :: (tag.name.toList ++ '>' :: r))) := by
  simp [Lexeme.text]

/-- Raw text ends where the mark of an end tag stands first. -/
theorem raw_cut {tag tag' : Xml.StartTag} {x y : String} (h : (Lexeme.raw tag x).Valid) (h' : (Lexeme.raw tag' y).Valid)
    {r s : List Char} (he : (Lexeme.raw tag x).text.toList ++ r = (Lexeme.raw tag' y).text.toList ++ s) :
    Lexeme.raw tag x = .raw tag' y ∧ r = s := by
  rw [toList_raw, toList_raw] at he
  obtain ⟨rfl, hcontent⟩ := Xml.startTag_cuts h.1 h'.1 he
  obtain ⟨hxy, hend⟩ := Xml.mark_cut ['<'] (by decide) h.2.2 h'.2.2 hcontent
  obtain rfl : x = y := String.toList_inj.1 hxy
  exact ⟨rfl, (List.cons.inj (List.append_cancel_left hend)).2⟩

/-- An element with raw text begins with a start tag that no other lexeme begins with. -/
theorem plain_ne_raw {lexeme : Xml.Lexeme} {tag : Xml.StartTag} {content : String} (h : (Lexeme.plain lexeme).Valid)
    (h' : (Lexeme.raw tag content).Valid) (r s : List Char) :
    (Lexeme.plain lexeme).text.toList ++ r ≠ (Lexeme.raw tag content).text.toList ++ s := by
  intro he
  rw [toList_raw] at he
  have hopening : (Xml.Lexeme.opening tag).Valid := h'.1
  obtain ⟨rfl, -⟩ := Xml.lexeme_cuts (Lexeme.valid_of_plain h) hopening he
  exact h.2 h'.2.1

/-- Every lexeme shows which one it is and where it ends. -/
theorem lexeme_cuts : Xml.Cuts Lexeme.Valid fun lexeme => lexeme.text.toList := by
  intro a b ha hb r s h
  cases a with
  | plain a =>
    cases b with
    | plain b =>
      obtain ⟨rfl, hrs⟩ := Xml.lexeme_cuts (Lexeme.valid_of_plain ha) (Lexeme.valid_of_plain hb) h
      exact ⟨rfl, hrs⟩
    | raw tag content => exact absurd h (plain_ne_raw ha hb r s)
  | raw tag content =>
    cases b with
    | plain b => exact absurd h.symm (plain_ne_raw hb ha s r)
    | raw tag' content' => exact raw_cut ha hb h

theorem Lexeme.text_ne_nil {lexeme : Lexeme} (h : lexeme.Valid) : lexeme.text.toList ≠ [] := by
  cases lexeme with
  | plain lexeme => exact lexeme.text_ne_nil (valid_of_plain h)
  | raw tag content => simp [Lexeme.text]

/-- The lexemes can be read off their text. -/
theorem eq_of_join_text {l m : List Lexeme} (hl : ∀ lexeme ∈ l, lexeme.Valid) (hm : ∀ lexeme ∈ m, lexeme.Valid)
    (h : String.join (l.map Lexeme.text) = String.join (m.map Lexeme.text)) : l = m := by
  have hempty : ∀ lexeme : Lexeme, lexeme.Valid → ∀ x, [] ≠ lexeme.text.toList ++ x := by
    intro lexeme ht x hx
    exact lexeme.text_ne_nil ht (List.append_eq_nil_iff.1 hx.symm).1
  refine (lexeme_cuts.flatMap hl hm hempty hempty ?_).1
  have htext := congrArg String.toList h
  simpa only [String.toList_join, List.flatMap_map, List.append_nil] using htext

theorem LegibleElement.valid_startTag (h : LegibleElement name attributes below) :
    (startTag name attributes).Valid := by
  refine ⟨h.names name List.mem_cons_self, fun e he => ?_⟩
  obtain ⟨a, ha, rfl⟩ := List.mem_map.1 he
  exact h.names a.name (List.mem_cons_of_mem _ (List.mem_map_of_mem ha))

/-- No element is void and raw. -/
theorem not_raw_of_void {tag : String} (h : tag ∈ voidTags) : tag ∉ rawTags := by
  revert tag
  decide

/-- The lexemes of a legible forest can be told from one another. -/
theorem Legible.valid_lexemes (hf : Legible f) : ∀ lexeme ∈ lexemes f, lexeme.Valid := by
  induction f with
  | nil => exact List.forall_mem_nil _
  | node content below rest ihb ihr =>
    obtain ⟨hc, hbelow, hrest⟩ := hf
    rw [lexemes.eq_def]
    refine List.forall_mem_append.2 ⟨?_, ihr hrest⟩
    cases content with
    | element name attributes =>
      have helement : LegibleElement name attributes below := hc
      have htag := helement.valid_startTag
      dsimp only
      split
      · rename_i hvoid
        exact List.forall_mem_singleton.2 ⟨htag, not_raw_of_void hvoid⟩
      · split
        · rename_i hraw
          exact List.forall_mem_singleton.2 ⟨htag, hraw, (helement.raw hraw).2⟩
        · rename_i hraw
          refine List.forall_mem_cons.2 ⟨⟨htag, hraw⟩, List.forall_mem_append.2 ⟨ihb hbelow, ?_⟩⟩
          exact List.forall_mem_singleton.2 (helement.names name List.mem_cons_self)
    | text content => exact List.forall_mem_map.2 fun _ _ => trivial
    | comment content => exact List.forall_mem_singleton.2 hc.1
    | _ => exact hc.elim

/-! ### Reading lexemes -/

/-- The element that begins with a start tag, in no namespace. -/
def element (tag : Xml.StartTag) : Content :=
  .element ⟨"", "", tag.name⟩ (tag.attributes.map fun e => ⟨⟨"", "", e.1⟩, e.2⟩)

/-- A reader among the lexemes: the elements that are still open with the forest before each, and the forest read
since. -/
structure Reader where
  above : List (Content × Forest Content)
  read : Forest Content

namespace Reader

/-- Adds a node to what was read. -/
def add (r : Reader) (content : Content) (below : Forest Content) : Reader :=
  { r with read := r.read ++ .node content below .nil }

/-- Reads one lexeme. The start tag of a void element ends it, and an end tag ends the innermost element, whatever its
name. -/
def step (r : Reader) : Lexeme → Reader
  | .plain (.opening tag) =>
    if tag.name ∈ voidTags then r.add (element tag) .nil else ⟨(element tag, r.read) :: r.above, .nil⟩
  | .plain (.closing _) =>
    match r.above with
    | [] => r
    | (content, before) :: above => add ⟨above, before⟩ content r.read
  | .plain (.character c) => r.add (.text (String.singleton c)) .nil
  | .plain (.comment content) => r.add (.comment content) .nil
  | .plain (.instruction target content) => r.add (.instruction target content) .nil
  | .plain (.doctype name) => r.add (.doctype name "" "") .nil
  | .raw tag content => r.add (element tag) (.characters content.toList)

/-- Characters one after another. -/
theorem foldl_characters (cs : List Char) (above : List (Content × Forest Content)) (before : Forest Content) :
    (cs.map fun c => Lexeme.plain (.character c)).foldl step ⟨above, before⟩ = ⟨above, before ++ .characters cs⟩ := by
  induction cs generalizing before with
  | nil => simp [Forest.characters]
  | cons c cs ih =>
    rw [List.map_cons, List.foldl_cons, step, add, ih, Forest.append_assoc]
    rfl

end Reader

/-- An element is read as what HTML text shows of it. -/
theorem element_startTag (name : Name) (attributes : List (Attribute String)) :
    element (startTag name attributes) = NodeData.shown (.element name attributes) := by
  simp [element, startTag, Xml.ownAttributes, NodeData.shown, Attribute.plain]

theorem characters_append (l m : List Char) :
    Forest.characters (l ++ m) = Forest.characters l ++ Forest.characters m := by
  induction l with
  | nil => rfl
  | cons c l ih => rw [List.cons_append, Forest.characters, Forest.characters, ih, Forest.node_append]

/-- A forest of texts is known by what they make up together. -/
theorem spelled_texts (h : ∀ content ∈ f.toList, content.kind = .text) :
    (f.map NodeData.shown).spelled = .characters (rawText f).toList := by
  induction f with
  | nil => rfl
  | node content below rest _ ihr =>
    rw [Forest.toList, List.forall_mem_cons, List.forall_mem_append] at h
    obtain ⟨hc, -, hr⟩ := h
    cases content with
    | text content =>
      simp only [Forest.map, NodeData.shown, Forest.spelled, rawText, String.toList_append, characters_append, ihr hr]
    | _ => cases hc

/-- Reading the lexemes of a legible forest adds what they show of the forest to what was read before. -/
theorem Legible.foldl_lexemes (hf : Legible f) (above : List (Content × Forest Content)) (before : Forest Content) :
    (lexemes f).foldl Reader.step ⟨above, before⟩ = ⟨above, before ++ (f.map NodeData.shown).spelled⟩ := by
  induction f generalizing above before with
  | nil => simp [lexemes, Forest.map, Forest.spelled]
  | node content below rest ihb ihr =>
    obtain ⟨hc, hbelow, hrest⟩ := hf
    rw [lexemes.eq_def]
    dsimp only
    rw [List.foldl_append]
    cases content with
    | element name attributes =>
      have helement : LegibleElement name attributes below := hc
      have hspelled : ((Forest.node (.element name attributes) below rest).map NodeData.shown).spelled =
          .node (element (startTag name attributes)) (below.map NodeData.shown).spelled
            (rest.map NodeData.shown).spelled := by
        rw [element_startTag]
        rfl
      rw [hspelled]
      dsimp only
      split
      · rename_i hvoid
        have hname : (startTag name attributes).name ∈ voidTags := hvoid
        obtain rfl := helement.void hvoid
        rw [List.foldl_cons, List.foldl_nil, Reader.step, if_pos hname, Reader.add, ihr hrest, Forest.append_assoc]
        rfl
      · rename_i hvoid
        have hname : (startTag name attributes).name ∉ voidTags := hvoid
        split
        · rename_i hraw
          rw [List.foldl_cons, List.foldl_nil, Reader.step, Reader.add, ihr hrest, Forest.append_assoc,
            spelled_texts (helement.raw hraw).1]
          rfl
        · rw [List.foldl_cons, Reader.step, if_neg hname, List.foldl_append, ihb hbelow, List.foldl_cons,
            List.foldl_nil, Reader.step]
          dsimp only
          rw [Reader.add, ihr hrest, Forest.append_assoc, Forest.nil_append]
          rfl
    | text content =>
      rw [Reader.foldl_characters, ihr hrest, Forest.append_assoc]
      rfl
    | comment content =>
      obtain rfl := hc.2
      rw [List.foldl_cons, List.foldl_nil, Reader.step, Reader.add, ihr hrest, Forest.append_assoc]
      rfl
    | _ => exact hc.elim

/-- Legible forests with one HTML text show the same, up to where texts are cut. -/
theorem Legible.merged_eq {g : Forest Content} (hf : Legible f) (hg : Legible g) (h : print f = print g) :
    (f.map NodeData.shown).merged = (g.map NodeData.shown).merged := by
  rw [print_eq_join, print_eq_join] at h
  have hlexemes : lexemes f = lexemes g := eq_of_join_text hf.valid_lexemes hg.valid_lexemes h
  have hread := hf.foldl_lexemes [] .nil
  rw [hlexemes, hg.foldl_lexemes] at hread
  have hspelled : (g.map NodeData.shown).spelled = (f.map NodeData.shown).spelled := congrArg Reader.read hread
  rw [← (f.map NodeData.shown).merged_spelled, ← (g.map NodeData.shown).merged_spelled, hspelled]

/-! ### What the text does not show -/

theorem rawText_prependText (s : String) (f : Forest Content) : rawText (f.prependText s) = s ++ rawText f := by
  by_cases hs : s = ""
  · simp [Forest.prependText, hs]
  · cases f with
    | nil => simp [Forest.prependText, hs, rawText]
    | node content below rest => cases content <;> simp [Forest.prependText, hs, rawText, String.append_assoc]

theorem print_prependText (s : String) (f : Forest Content) : print (f.prependText s) = Escape.text s ++ print f := by
  have happend : ∀ s s' : String, Escape.text (s ++ s') = Escape.text s ++ Escape.text s' := by
    simp [Escape.text]
  by_cases hs : s = ""
  · simp [Forest.prependText, hs, Escape.text]
  · cases f with
    | nil => simp [Forest.prependText, hs, print]
    | node content below rest => cases content <;> simp [Forest.prependText, hs, print, happend, String.append_assoc]

/-- Where texts are cut does not show in raw text. -/
theorem rawText_merged (f : Forest Content) : rawText f.merged = rawText f := by
  induction f with
  | nil => rfl
  | node content below rest _ ihr =>
    cases content with
    | text content => rw [Forest.merged, rawText_prependText, ihr, rawText]
    | _ => simp only [Forest.merged, rawText, ihr]

/-- Where texts are cut does not show in HTML text. -/
theorem print_merged (f : Forest Content) : print f.merged = print f := by
  induction f with
  | nil => rfl
  | node content below rest ihb ihr =>
    cases content with
    | text content => rw [Forest.merged, print_prependText, ihr, print]
    | _ => simp only [Forest.merged, print, rawText_merged, ihb, ihr]

end RichText.Html

namespace RichText.Tree

open Html

/-- Two nodes with legible contents have one inner HTML text if and only if the forests below them are the same, but for
the namespaces of names, empty texts, and where texts are cut. -/
theorem innerHtml_eq_iff {t u : Tree} {r s : Ref} (ht : Legible (t.contentBelow r)) (hu : Legible (u.contentBelow s)) :
    t.innerHtml r = u.innerHtml s ↔
      ((t.contentBelow r).map NodeData.shown).merged = ((u.contentBelow s).map NodeData.shown).merged := by
  rw [innerHtml, innerHtml]
  constructor
  · intro h
    exact ht.merged_eq hu h
  · intro h
    have hprint := congrArg print h
    rwa [print_merged, print_merged, print_shown, print_shown] at hprint

/-- A paragraph with a line break in it, and a script whose text is cut where the mark of an end tag could begin. -/
def scripted : Tree where
  nodes := #[
    { first := some 1, last := some 9, data := .document },
    { parent := some 0, next := some 6, first := some 2, last := some 5,
      data := .element ⟨1, 0, 2⟩ [⟨⟨3, 4, 5⟩, "\"<&"⟩] },
    { parent := some 1, next := some 3, data := .text "a<" },
    { parent := some 1, prev := some 2, next := some 4, data := .text "" },
    { parent := some 1, prev := some 3, next := some 5, data := .text "b" },
    { parent := some 1, prev := some 4, data := .element ⟨1, 0, 6⟩ [] },
    { parent := some 0, prev := some 1, next := some 9, first := some 7, last := some 8,
      data := .element ⟨0, 0, 7⟩ [] },
    { parent := some 6, next := some 8, data := .text "i<" },
    { parent := some 6, prev := some 7, data := .text "<j" },
    { parent := some 0, prev := some 6, data := .comment "--" }]
  symbols := ⟨#["", "h", "p", "l", "x", "href", "br", "script", "x:href"]⟩

/-- The same without namespaces, and with texts in one piece. -/
def unscripted : Tree where
  nodes := #[
    { first := some 1, last := some 6, data := .document },
    { parent := some 0, next := some 4, first := some 2, last := some 3,
      data := .element ⟨0, 0, 2⟩ [⟨⟨0, 0, 8⟩, "\"<&"⟩] },
    { parent := some 1, next := some 3, data := .text "a<b" },
    { parent := some 1, prev := some 2, data := .element ⟨0, 0, 6⟩ [] },
    { parent := some 0, prev := some 1, next := some 6, first := some 5, last := some 5,
      data := .element ⟨0, 0, 7⟩ [] },
    { parent := some 4, data := .text "i<<j" },
    { parent := some 0, prev := some 4, data := .comment "--" }]
  symbols := scripted.symbols

theorem innerHtml_scripted :
    Legible (scripted.contentBelow root) ∧ Legible (unscripted.contentBelow root) ∧
      scripted.contentBelow root ≠ unscripted.contentBelow root ∧
      scripted.innerHtml root = unscripted.innerHtml root ∧
      ((scripted.contentBelow root).map NodeData.shown).merged =
        ((unscripted.contentBelow root).map NodeData.shown).merged := by
  have ht : Legible (scripted.contentBelow root) := by decide +kernel
  have hu : Legible (unscripted.contentBelow root) := by decide +kernel
  have hne : scripted.contentBelow root ≠ unscripted.contentBelow root := by decide +kernel
  have hprint : scripted.innerHtml root = unscripted.innerHtml root := by decide +kernel
  exact ⟨ht, hu, hne, hprint, (innerHtml_eq_iff ht hu).1 hprint⟩

/-- The texts of a raw element count together: each of these is without the mark of an end tag. -/
example : print (.node (.element ⟨"", "", "script"⟩ [])
      (.node (.text "<") .nil (.node (.text "/script><script>") .nil .nil)) .nil) =
    print (.node (.element ⟨"", "", "script"⟩ []) .nil (.node (.element ⟨"", "", "script"⟩ []) .nil .nil)) := by
  decide

end RichText.Tree

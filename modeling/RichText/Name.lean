/-!
Names of elements and attributes.

A name has a namespace, a prefix and a local part; the empty string stands for "none" in the first two. Its
written form puts a colon between the prefix and the local part. `splitName` reads a written form back, and
`written_ofWritten` says that nothing of it is lost.
-/

namespace RichText

/-- A name over any kind of string `σ`: plain strings, or the symbols that stand for them in a tree. -/
structure QualifiedName (σ : Type) where
  space : σ
  nsPrefix : σ
  localPart : σ
  deriving DecidableEq, Repr, Inhabited

/-- A name in plain strings. -/
abbrev Name := QualifiedName String

/-- Applies a function to the three parts. -/
def QualifiedName.map {σ τ : Type} (f : σ → τ) (name : QualifiedName σ) : QualifiedName τ :=
  ⟨f name.space, f name.nsPrefix, f name.localPart⟩

/-- The written form: `prefix:local`, or the local part alone. -/
def QualifiedName.written (name : Name) : String :=
  if name.nsPrefix = "" then name.localPart else name.nsPrefix ++ ":" ++ name.localPart

/-- What stands before and after the first colon; `none` without a colon. -/
def splitAtColon : List Char → Option (List Char × List Char)
  | [] => none
  | c :: rest =>
    if c = ':' then some ([], rest)
    else (splitAtColon rest).map fun (before, after) => (c :: before, after)

/-- Splits a written name into prefix and local part at its first colon. A name that begins or ends with
that colon has no usable prefix and stays whole. -/
def splitName (written : String) : Option String × String :=
  match splitAtColon written.toList with
  | some (p :: ps, l :: ls) => (some (String.ofList (p :: ps)), String.ofList (l :: ls))
  | _ => (none, written)

/-- The name in namespace `space` whose written form is `written`. -/
def QualifiedName.ofWritten (space written : String) : Name :=
  let (nsPrefix, localPart) := splitName written
  ⟨space, nsPrefix.getD "", localPart⟩

theorem eq_of_splitAtColon {cs before after : List Char} (h : splitAtColon cs = some (before, after)) :
    cs = before ++ ':' :: after := by
  induction cs generalizing before with
  | nil => simp [splitAtColon] at h
  | cons c rest ih =>
    rw [splitAtColon] at h
    split at h
    · simp_all
    · obtain ⟨⟨b, a⟩, hs, he⟩ := Option.map_eq_some_iff.1 h
      simp only [Prod.mk.injEq] at he
      obtain ⟨rfl, rfl⟩ := he
      simp [ih hs]

theorem splitAtColon_eq_none {cs : List Char} (h : ':' ∉ cs) : splitAtColon cs = none := by
  cases hs : splitAtColon cs with
  | none => rfl
  | some cut =>
    refine absurd ?_ h
    rw [eq_of_splitAtColon hs]
    exact List.mem_append_right _ List.mem_cons_self

theorem splitAtColon_append {before : List Char} (h : ':' ∉ before) (after : List Char) :
    splitAtColon (before ++ ':' :: after) = some (before, after) := by
  induction before with
  | nil => simp [splitAtColon]
  | cons c rest ih =>
    simp only [List.mem_cons, not_or] at h
    rw [List.cons_append, splitAtColon, if_neg (Ne.symm h.1), ih h.2]
    rfl

@[simp] theorem space_ofWritten (space written : String) :
    (QualifiedName.ofWritten space written).space = space := rfl

theorem written_ofWritten (space written : String) :
    (QualifiedName.ofWritten space written).written = written := by
  rcases hs : splitAtColon written.toList with _ | ⟨_ | ⟨p, ps⟩, _ | ⟨l, ls⟩⟩ <;>
    simp only [QualifiedName.ofWritten, splitName, hs, QualifiedName.written, Option.getD_none,
      Option.getD_some, if_true]
  have hw := eq_of_splitAtColon hs
  simp [← String.toList_inj, hw]

theorem ofWritten_append {nsPrefix localPart : String} (hp : nsPrefix ≠ "") (hc : ':' ∉ nsPrefix.toList)
    (hl : localPart ≠ "") (space : String) :
    QualifiedName.ofWritten space (nsPrefix ++ ":" ++ localPart) = ⟨space, nsPrefix, localPart⟩ := by
  have hw : (nsPrefix ++ ":" ++ localPart).toList = nsPrefix.toList ++ ':' :: localPart.toList := by simp
  cases hps : nsPrefix.toList with
  | nil => exact absurd (String.toList_inj.1 hps) hp
  | cons p ps =>
    cases hls : localPart.toList with
    | nil => exact absurd (String.toList_inj.1 hls) hl
    | cons l ls =>
      rw [QualifiedName.ofWritten, splitName, hw, splitAtColon_append hc, hps, hls]
      simp only [← hps, ← hls, String.ofList_toList, Option.getD_some]

/-- A name whose parts have no colons is read from its written form as it is. -/
theorem ofWritten_written {name : Name} (hp : ':' ∉ name.nsPrefix.toList) (hl : ':' ∉ name.localPart.toList)
    (hne : name.localPart ≠ "") : QualifiedName.ofWritten name.space name.written = name := by
  obtain ⟨space, nsPrefix, localPart⟩ := name
  by_cases hn : nsPrefix = ""
  · simp [QualifiedName.ofWritten, QualifiedName.written, splitName, hn, splitAtColon_eq_none hl]
  · rw [QualifiedName.written, if_neg hn, ofWritten_append hn hp hne]

namespace Uri

/-- The namespace of every HTML element. -/
def xhtml : String := "http://www.w3.org/1999/xhtml"

/-- The namespace of SVG drawings. -/
def svg : String := "http://www.w3.org/2000/svg"

/-- The namespace of MathML formulas. -/
def mathml : String := "http://www.w3.org/1998/Math/MathML"

/-- The namespace of linking attributes such as `xlink:href`. -/
def xlink : String := "http://www.w3.org/1999/xlink"

/-- The namespace that the prefix `xml` always has. -/
def xml : String := "http://www.w3.org/XML/1998/namespace"

/-- The namespace of namespace declarations, that of the prefix `xmlns`. -/
def xmlns : String := "http://www.w3.org/2000/xmlns/"

/-- The namespace of rich text documents. -/
def richText : String := "http://www.coremedia.com/2003/richtext-1.0"

end Uri

end RichText

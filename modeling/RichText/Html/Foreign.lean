import RichText.Html.Element
import RichText.Html.Token

/-!
SVG and MathML within HTML: the spelling of their names, and where HTML begins again.
-/

namespace RichText.Html.Foreign

/-- The SVG tags that are not all lower case. -/
def svgTags : List String :=
  ["altGlyph", "altGlyphDef", "altGlyphItem", "animateColor", "animateMotion", "animateTransform", "clipPath",
   "feBlend", "feColorMatrix", "feComponentTransfer", "feComposite", "feConvolveMatrix",
   "feDiffuseLighting", "feDisplacementMap", "feDistantLight", "feDropShadow", "feFlood", "feFuncA",
   "feFuncB", "feFuncG", "feFuncR", "feGaussianBlur", "feImage", "feMerge", "feMergeNode", "feMorphology",
   "feOffset", "fePointLight", "feSpecularLighting", "feSpotLight", "feTile", "feTurbulence",
   "foreignObject", "glyphRef", "linearGradient", "radialGradient", "textPath"]

/-- The SVG attributes that are not all lower case. -/
def svgAttributes : List String :=
  ["attributeName", "attributeType", "baseFrequency", "baseProfile", "calcMode", "clipPathUnits",
   "diffuseConstant", "edgeMode", "filterUnits", "glyphRef", "gradientTransform", "gradientUnits",
   "kernelMatrix", "kernelUnitLength", "keyPoints", "keySplines", "keyTimes", "lengthAdjust",
   "limitingConeAngle", "markerHeight", "markerUnits", "markerWidth", "maskContentUnits", "maskUnits",
   "numOctaves", "pathLength", "patternContentUnits", "patternTransform", "patternUnits", "pointsAtX",
   "pointsAtY", "pointsAtZ", "preserveAlpha", "preserveAspectRatio", "primitiveUnits", "refX", "refY",
   "repeatCount", "repeatDur", "requiredExtensions", "requiredFeatures", "specularConstant",
   "specularExponent", "spreadMethod", "startOffset", "stdDeviation", "stitchTiles", "surfaceScale",
   "systemLanguage", "tableValues", "targetX", "targetY", "textLength", "viewBox", "viewTarget",
   "xChannelSelector", "yChannelSelector", "zoomAndPan"]

/-- The spelling of a name that is given in lower case; a name that is not in the list stays. -/
def spelling (names : List String) (lower : String) : String :=
  (names.find? fun name => name.toLower == lower).getD lower

/-- The attributes that get a namespace, by prefix and local part. -/
def namespaced : List (String × String × String) :=
  (["actuate", "arcrole", "href", "role", "show", "title", "type"].map fun name => ("xlink", Uri.xlink, name))
    ++ (["base", "lang", "space"].map fun name => ("xml", Uri.xml, name)) ++ [("xmlns", Uri.xmlns, "xlink")]

/-- The name of an attribute as it is spelled, with the namespace it has in foreign elements. -/
def attributeName (spelled : String) : Name :=
  if spelled = "xmlns" then ⟨Uri.xmlns, "", "xmlns"⟩
  else
    match namespaced.find? fun (nsPrefix, _, localPart) => nsPrefix ++ ":" ++ localPart == spelled with
    | some (nsPrefix, uri, localPart) => ⟨uri, nsPrefix, localPart⟩
    | none => ⟨"", "", spelled⟩

/-- The tag of an element in a namespace. -/
def tagIn (space tag : String) : String := if space = Uri.svg then spelling svgTags tag else tag

/-- The attributes of an element in a namespace. -/
def attributesIn (space : String) (tag : Tag) : List (Attribute String) :=
  tag.attributes.map fun (name, value) =>
    let spelled :=
      if space = Uri.svg then spelling svgAttributes name
      else if space = Uri.mathml then spelling ["definitionURL"] name
      else name
    ⟨attributeName spelled, value⟩

/-- HTML elements whose start tags end all foreign content around them. -/
def breakoutTags : List String :=
  ["b", "big", "blockquote", "body", "br", "center", "code", "dd", "div", "dl", "dt", "em", "embed", "h1",
   "h2", "h3", "h4", "h5", "h6", "head", "hr", "i", "img", "li", "listing", "menu", "meta", "nobr", "ol",
   "p", "pre", "ruby", "s", "small", "span", "strong", "strike", "sub", "sup", "table", "tt", "u", "ul",
   "var"]

/-- Whether a start tag ends all foreign content around it. -/
def isBreakout (tag : Tag) : Bool :=
  breakoutTags.contains tag.name
    || (tag.name == "font" && tag.attributes.any fun (name, _) => ["color", "face", "size"].contains name)

/-- Whether an element holds HTML: certain SVG elements, and MathML annotations that say so. -/
def hostsHtml (e : Element) : Bool :=
  e.isSvgHost
    || (e.space == Uri.mathml && e.tag == "annotation-xml"
      && (e.attribute? "encoding").any fun encoding =>
        ["text/html", "application/xhtml+xml"].contains encoding.toLower)

/-- Whether a token in the innermost open element is to be read as foreign content. -/
def isForeign (current : Option Element) (token : Token) : Bool :=
  match current with
  | none => false
  | some e =>
    if e.space == Uri.xhtml then false
    else
      match token with
      | .finish => false
      | .startTag tag =>
        !((e.isMathText && !(["mglyph", "malignmark"].contains tag.name))
          || (e.space == Uri.mathml && e.tag == "annotation-xml" && tag.name == "svg")
          || hostsHtml e)
      | .space _ | .text _ | .null => !(e.isMathText || hostsHtml e)
      | _ => true

end RichText.Html.Foreign

import RichText.Text.Quoted
import RichText.Tree.Attributes

/-!
What all proxies share: the errors they raise, the fate they record for a node and the answer of writing
their changes to the tree.

A proxy buffers changes to one node. Its operations either succeed or raise an error, and in both cases leave
a proxy; the tree that it works on is part of it.
-/

namespace RichText

/-- The operations that a read-only proxy refuses. -/
inductive Operation where
  | setRemove
  | setRemoveChildren
  | setReplaceByChildren
  | setName
  | setAttribute
  | deleteAttribute
  | replaceElement
  | setTextContent
  | addToClassList
  | removeFromClassList
  | toggleClass
  | replaceClass
  deriving DecidableEq, Repr

/-- How messages name an operation. -/
def Operation.phrase : Operation → String
  | setRemove => "set remove"
  | setRemoveChildren => "set remove children"
  | setReplaceByChildren => "set replace by children"
  | setName => "set name"
  | setAttribute => "set attribute"
  | deleteAttribute => "delete attribute"
  | replaceElement => "replace element"
  | setTextContent => "set text content"
  | addToClassList => "add to class list"
  | removeFromClassList => "remove from class list"
  | toggleClass => "toggle class"
  | replaceClass => "replace class"

/-- Why an operation of a proxy, a rule or a whole pass fails. -/
inductive FilterError where
  /-- The proxy is read-only. -/
  | immutable (operation : Operation)
  /-- Class tokens that are empty or hold white space. -/
  | invalidTokens (tokens : List String)
  /-- The tree refused an edit. -/
  | tree (error : TreeError)
  /-- A rule gave up on its own account. -/
  | rule (message : String)
  deriving DecidableEq, Repr

/-- The text of an error. -/
def FilterError.message : FilterError → String
  | immutable operation => "Cannot " ++ operation.phrase ++ ": node proxy is immutable"
  | invalidTokens tokens => "Invalid class token(s): " ++ ", ".intercalate (tokens.map Text.quote)
  | tree error => "DOM error while persisting: " ++ error.message
  | rule message => "Rule failed: " ++ message

/-- What is to become of a node when its proxy is persisted. -/
inductive Fate where
  /-- The node stays; it may still change its name, attributes or text. -/
  | keep
  /-- The node goes with all that is below it. -/
  | remove
  /-- The node goes and its children take its place. -/
  | unwrap
  /-- The node stays and its children go. -/
  | clear
  deriving DecidableEq, Repr

/-- What persisting a proxy means for the rules that are still to come. -/
inductive Response where
  /-- Further rules may run on the node. -/
  | proceed
  /-- The node is gone; no further rule may run on it. -/
  | stop
  /-- The node is gone, and its children from this one on are to be visited in its place. -/
  | restart (node : Nat)
  deriving DecidableEq, Repr

/-- An operation on a proxy of type `P`. -/
abbrev ProxyM (P : Type) := ExceptT FilterError (StateM P)

end RichText

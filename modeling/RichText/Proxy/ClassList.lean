import RichText.Proxy.Element
import RichText.Text.Blank

/-!
The class list of an element: the `class` attribute as an ordered set of tokens.

Nothing is kept beside the attribute. Every operation reads its current value, buffered or live, and a write
buffers the tokens joined by single spaces.
-/

namespace RichText.ElementProxy

/-- The value of the `class` attribute as it is, empty without one. -/
def classValue (p : ElementProxy) : String := (p.attribute? "class").getD ""

/-- The distinct tokens of the `class` attribute in the order of their first occurrence. -/
def classes (p : ElementProxy) : List String := (Text.words p.classValue).eraseDups

/-- Whether a token could stand in a class list: it is not empty and has no white space. -/
def isToken (token : String) : Bool := token ≠ "" && !token.toList.any Text.isBlank

/-- Refuses a write on a read-only proxy, and one that names invalid tokens. -/
def requireTokens (operation : Operation) (tokens : List String) : ProxyM ElementProxy Unit := do
  onNode (NodeProxy.requireMutable operation)
  let invalid := tokens.filter fun token => !isToken token
  if !invalid.isEmpty then throw (.invalidTokens invalid)

/-- Buffers a class list. An empty one is not written where there is no `class` attribute. -/
def setClasses (tokens : List String) : ProxyM ElementProxy Unit := do
  if tokens.isEmpty && !(← get).hasAttribute "class" then return
  setAttribute "class" (" ".intercalate tokens)

/-- Adds tokens that are not in the list yet, in order. -/
def addClasses (tokens : List String) : ProxyM ElementProxy Unit := do
  requireTokens .addToClassList tokens
  setClasses <| tokens.foldl (fun current token => if token ∈ current then current else current ++ [token])
    (← get).classes

/-- Removes tokens; absent ones do not matter. -/
def removeClasses (tokens : List String) : ProxyM ElementProxy Unit := do
  requireTokens .removeFromClassList tokens
  setClasses <| (← get).classes.filter fun token => token ∉ tokens

/-- Adds a token or removes it, as `force` says, or else the opposite of what is there. Answers whether the
token is in the list afterwards. -/
def toggleClass (token : String) (force : Option Bool) : ProxyM ElementProxy Bool := do
  requireTokens .toggleClass [token]
  let wanted := force.getD (token ∉ (← get).classes)
  if wanted then addClasses [token] else removeClasses [token]
  return wanted

/-- A list with `new` in the place of `token`, or without `token` if `new` is in it already. -/
def exchangeToken (token new : String) (current : List String) : List String :=
  if new ∈ current then current.erase token
  else current.map fun t => if t = token then new else t

/-- Puts a token in the place of another. Answers whether the other was in the list; nothing is written if
it was not. -/
def replaceClass (token new : String) : ProxyM ElementProxy Bool := do
  requireTokens .replaceClass [token, new]
  let current := (← get).classes
  if token ∉ current then return false
  setClasses (exchangeToken token new current)
  return true

end RichText.ElementProxy

import ProseMarkup.PrefixTree
import ProseMarkup.Value.Access

/-!
# Whitelists

Which style properties a writer may set. A pattern permits exactly the name it spells, or, if it
ends with `*`, every name that begins with what comes before that star.

* `Whitelist.ofPatterns`, `Whitelist.ofValue` : the whitelist of a list of patterns, and of a value as
  such a list.
* `Whitelist.permits`, `Whitelist.permitsValue` : the verdict on a name, and on any value as a name.
* `Whitelists` : one whitelist for each namespace of rules.
* `WhitelistPatterns.toWhitelists` : the whitelists of given patterns; every namespace must be present.
* `WhitelistPatterns.ofValue` : a value as patterns for the namespaces.
* `WhitelistPatterns.standard` : the patterns in use when none are given.
-/

namespace ProseMarkup

/-- A set of permitted property names. -/
structure Whitelist where
  /-- The exact names, and the beginnings of names. -/
  names : PrefixTree

namespace Whitelist

/-- Whether a pattern ends with a star. -/
def isWildcard (pattern : Text) : Bool :=
  pattern.getLast? == some '*'

/-- The whitelist of a list of patterns. -/
def ofPatterns (patterns : List Text) : Whitelist :=
  ⟨PrefixTree.ofPatterns (patterns.filter fun p => !isWildcard p)
    ((patterns.filter isWildcard).map List.dropLast)⟩

/-- A value as a pattern. -/
def patternOf : Value → Except Fault Text
  | .str pattern => .ok pattern
  | _ => .error .lacksMember

/-- The whitelist of a value as a list of patterns. -/
def ofValue (patterns : Value) : Except Fault Whitelist := do
  return ofPatterns (← (← patterns.elements).mapM patternOf)

/-- Whether a property name is permitted. -/
def permits (w : Whitelist) (name : Text) : Bool :=
  w.names.covers name

/-- Whether a value is a permitted property name. -/
def permitsValue (w : Whitelist) : Value → Bool
  | .str name => w.permits name
  | _ => false

end Whitelist

/-- A whitelist for each namespace of rules. -/
structure Whitelists where
  paragraph : Whitelist
  span : Whitelist
  container : Whitelist

/-- The whitelist of a namespace. -/
def Whitelists.get (w : Whitelists) : RuleSpace → Whitelist
  | .paragraph => w.paragraph
  | .span => w.span
  | .container => w.container

/-- Patterns for each namespace of rules, as given; a namespace may be absent. -/
structure WhitelistPatterns where
  paragraph : Option Value
  span : Option Value
  container : Option Value

namespace WhitelistPatterns

/-- What is given for a namespace, which must be present. -/
def require (space : RuleSpace) : Option Value → Except Fault Value
  | some patterns => .ok patterns
  | none => .error (.missingNamespace space)

/-- The whitelists of given patterns. Namespaces are looked for in the order paragraph, span,
container, and the first one missing is reported before any pattern is read. -/
def toWhitelists (p : WhitelistPatterns) : Except Fault Whitelists := do
  let paragraph ← require .paragraph p.paragraph
  let span ← require .span p.span
  let container ← require .container p.container
  return ⟨← Whitelist.ofValue paragraph, ← Whitelist.ofValue span, ← Whitelist.ofValue container⟩

/-- A list of patterns for each namespace. -/
def ofLists (paragraph span container : List Text) : WhitelistPatterns where
  paragraph := some (.list (paragraph.map .str))
  span := some (.list (span.map .str))
  container := some (.list (container.map .str))

/-- What a value gives for a namespace: a dictionary its entry; a list or a text that holds the keyword
names the namespace and gives nothing for it. -/
def lookIn (space : RuleSpace) : Value → Except Fault (Option Value)
  | .dict es => .ok (Dict.lookupEntry (.str space.keyword) es)
  | .list items =>
    .ok (if items.any (Value.isStr space.keyword) then some .null else none)
  | .str s => .ok (if Text.hasInfix space.keyword s then some .null else none)
  | _ => .error .notMapping

/-- A value as patterns for the namespaces. -/
def ofValue (patterns : Value) : Except Fault WhitelistPatterns := do
  return ⟨← lookIn .paragraph patterns, ← lookIn .span patterns, ← lookIn .container patterns⟩

/-- The patterns that every namespace shares by default. -/
def standardCommon : List Text :=
  ["color".toList, "background-color".toList, "font*".toList, "text-decoration".toList]

/-- The patterns in use when none are given. -/
def standard : WhitelistPatterns :=
  ofLists (standardCommon ++ ["margin*".toList, "border".toList, "text-align".toList])
    standardCommon standardCommon

end WhitelistPatterns

/-- Lists of texts are read as they are. -/
@[simp] theorem Whitelist.ofValue_list (patterns : List Text) :
    Whitelist.ofValue (.list (patterns.map .str)) = .ok (Whitelist.ofPatterns patterns) := by
  have h : (patterns.map Value.str).mapM Whitelist.patternOf = Except.ok patterns := by
    induction patterns with
    | nil => rfl
    | cons p ps ih => rw [List.map_cons, List.mapM_cons, ih]; rfl
  rw [Whitelist.ofValue.eq_def, Value.elements.eq_def]
  simp only [h, bind, Except.bind, pure, Except.pure]

end ProseMarkup

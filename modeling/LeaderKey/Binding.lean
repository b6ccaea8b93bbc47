import LeaderKey.Chord
import LeaderKey.Mnemonic

/-!
# Bindings

A binding is an action or a group of further bindings, selected by a mnemonic. A config is what
a config text compiles to: its appearance and the bindings of the root level. Walking a config by
mnemonics takes, at each level, the first binding with the mnemonic.
-/

namespace LeaderKey

/-- What actions and groups have in common. -/
structure Label where
  /-- The mnemonic that selects the binding. -/
  key : Char
  /-- The chord that types the mnemonic. -/
  chord : KeyChord
  /-- What the binding does, for people. -/
  description : String
  deriving BEq

/-- A node of the binding tree. -/
inductive Binding where
  /-- Triggers the action of that name. -/
  | action (label : Label) (actionId : String)
  /-- Leads to further bindings. -/
  | group (label : Label) (children : List Binding)

namespace Binding

/-- The label of a binding. -/
def label : Binding → Label
  | .action label _ => label
  | .group label _ => label

/-- The mnemonic of a binding. -/
def key (b : Binding) : Char := b.label.key

/-- The name of a binding's action, if it is an action. -/
def actionId? : Binding → Option String
  | .action _ actionId => some actionId
  | .group .. => none

/-- Whether a binding is a group. -/
def isGroup : Binding → Bool
  | .action .. => false
  | .group .. => true

/-- The bindings that a group leads to; none for an action. -/
def children : Binding → List Binding
  | .action .. => []
  | .group _ children => children

mutual

/-- The number of levels of a binding, counting itself. -/
def depth : Binding → Nat
  | .action .. => 1
  | .group _ children => 1 + levels children

/-- The number of levels of a list of bindings. -/
def levels : List Binding → Nat
  | [] => 0
  | b :: rest => max (depth b) (levels rest)

end

mutual

/-- Whether two bindings are equal, with equal chords in the sense of chords. -/
def same : Binding → Binding → Bool
  | .action a x, .action b y => a == b && x == y
  | .group a xs, .group b ys => a == b && sameLists xs ys
  | _, _ => false

/-- Whether two lists of bindings are equal. -/
def sameLists : List Binding → List Binding → Bool
  | [], [] => true
  | x :: xs, y :: ys => same x y && sameLists xs ys
  | _, _ => false

end

instance : BEq Binding := ⟨same⟩

/-- The first of some siblings that a mnemonic selects. -/
def select? (siblings : List Binding) (key : Char) : Option Binding :=
  siblings.find? fun b => b.key == key

/-- The binding that a sequence of mnemonics leads to from some siblings. -/
def walk? (siblings : List Binding) : List Char → Option Binding
  | [] => none
  | [key] => select? siblings key
  | key :: keys => (select? siblings key).bind fun b => walk? b.children keys

/-- A binding as text. -/
def toText : Binding → String
  | .action label actionId => s!"{label.chord.toText} {label.description} → {actionId}"
  | .group label children =>
    s!"{label.chord.toText} {label.description} ({children.length} entries)"

end Binding

/-- The title of a config that sets none. -/
def defaultTitle : String := "Ataman"

/-- How the bindings are shown. -/
structure Appearance where
  /-- The title above them. -/
  title : Option String := some defaultTitle
  deriving DecidableEq

/-- What a config text compiles to. -/
structure Config where
  /-- How the bindings are shown. -/
  appearance : Appearance := {}
  /-- The bindings of the root level. -/
  bindings : List Binding := []
  deriving BEq

namespace Config

/-- The title to show. -/
def title (c : Config) : String := c.appearance.title.getD defaultTitle

/-- The number of levels. -/
def depth (c : Config) : Nat := Binding.levels c.bindings

/-- The binding that a sequence of mnemonics leads to; the empty one leads to nothing. -/
def resolve (c : Config) (keys : List Char) : Option Binding := Binding.walk? c.bindings keys

end Config

end LeaderKey

/-! # Reading options

What a reader does with surplus attributes, and how deep it lets scopes nest. -/

namespace TagWalk

/-- What happens when a tag declares more attributes than a node can hold. -/
inductive Overflow
  /-- The first attributes are kept and the rest are dropped. -/
  | truncate
  /-- The tag is an error. -/
  | reject
  deriving DecidableEq

/-- The options of a reader. -/
structure Options where
  /-- What happens to surplus attributes. -/
  overflow : Overflow
  /-- The greatest number of scopes open at once, the document's own scope among them. -/
  maxDepth : Nat
  deriving DecidableEq

namespace Options

/-- The bound on open scopes when none is asked for. -/
def defaultMaxDepth : Nat := 256

/-- Lenient options: surplus attributes are dropped, and `defaultMaxDepth` bounds the scopes. -/
def lenient : Options := ⟨.truncate, defaultMaxDepth⟩

/-- Strict options: surplus attributes are an error, and `defaultMaxDepth` bounds the scopes. -/
def strict : Options := ⟨.reject, defaultMaxDepth⟩

instance : Inhabited Options := ⟨lenient⟩

/-- The same options with another bound on open scopes. -/
def withMaxDepth (options : Options) (maxDepth : Nat) : Options := { options with maxDepth }

/-- The same options with another treatment of surplus attributes. -/
def withOverflow (options : Options) (overflow : Overflow) : Options := { options with overflow }

/-- One change of one option. -/
inductive Change
  /-- Set the bound on open scopes. -/
  | maxDepth (bound : Nat)
  /-- Set the treatment of surplus attributes. -/
  | overflow (policy : Overflow)
  deriving DecidableEq

/-- The options after a change. -/
def change (options : Options) : Change → Options
  | .maxDepth bound => options.withMaxDepth bound
  | .overflow policy => options.withOverflow policy

/-- The options after a sequence of changes, the first one first; of two changes of one option the
later counts. -/
def changeAll (options : Options) (changes : List Change) : Options := changes.foldl change options

/-- **The options along a sequence of changes**: before the first one and after each, so that there
is one more of them than changes. -/
def history (options : Options) : List Change → List Options
  | [] => [options]
  | c :: changes => options :: history (options.change c) changes

end Options

end TagWalk

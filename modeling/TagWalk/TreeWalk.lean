import TagWalk.Markup
import TagWalk.Policy

/-! # Walks over trees

What a policy meets in a document that is known as a tree, without reading it: the nodes in the order
of their tags, each as deep as it stands in the tree, with bodies that are the written items. Offsets
are counted from the written lengths.

The only search in a document is for closing tags, and it counts no levels. So a walk also says when a
tag inside of an element ends like the closing tag of the element: there the search is **misled**, and
the walk has nothing to say about what comes behind.

* **`Item.visit`** — the visit of an item, up to where its visitor leaves it.
* **`Item.walk`** — one item after another, among the children of an element.
* **`Item.parsed`** — a whole document, from its root element on. -/

namespace TagWalk

/-- What a walk has met so far: what a session with a policy shows of its state, its visits and its
bodies. -/
structure Account where
  /-- The nodes, the latest first. -/
  seen : List Node
  /-- What was shown of them. -/
  sights : List Sight
  /-- The bodies that were read. -/
  bodies : List Bytes

namespace Account

/-- The account of a walk that has met nothing. -/
def blank : Account := ⟨[], [], []⟩

/-- The account after a visit of a node, with `depth` scopes open. The reader stands behind the tag
then, at `node.bodyStart`. -/
def meet (account : Account) (depth : Nat) (node : Node) : Account where
  seen := node :: account.seen
  sights := account.sights ++ [⟨node, depth, node.bodyStart⟩]
  bodies := account.bodies

/-- The account after a body was read. -/
def read (account : Account) (body : Bytes) : Account :=
  { account with bodies := account.bodies ++ [body] }

end Account

/-- How a part of a walk ends, and where. -/
inductive Ending
  /-- All of it was passed. -/
  | through
  /-- It was left at an offset, and nothing failed. -/
  | stopped (position : Nat)
  /-- It failed at an offset. -/
  | failed (fault : Fault) (position : Nat)
  /-- A closing tag is taken for another one. -/
  | misled
  deriving DecidableEq

namespace Ending

/-- The result and the place of the cursor, when `stop` is where the part ends; `none` where a
search is misled. -/
def outcome? (stop : Nat) : Ending → Option (Except Fault Unit × Nat)
  | through => some (.ok (), stop)
  | stopped position => some (.ok (), position)
  | failed fault position => some (.error fault, position)
  | misled => none

end Ending

namespace Item

/-- The node of an item that stands at an offset, if it is an element. Its body starts behind the
`/>` or the `>` of the opening tag. -/
def node? (offset : Nat) : Item → Option Node
  | text _ | markup .. => none
  | empty name attributes =>
      some ⟨⟨name, attributes, true⟩, offset + (opening name attributes).length + 2⟩
  | element name attributes _ =>
      some ⟨⟨name, attributes, false⟩, offset + (opening name attributes).length + 1⟩

/-- Whether a tag among the items of an element ends like the closing tag of the element:
`closing name` is a suffix of one of `tagsAll items`. That of another element with the same name is;
so may a declaration or an attribute be. -/
def closesEarly (name : Bytes) (items : List Item) : Bool :=
  (tagsAll items).any (closing name).isSuffixOf

/-- **What comes of a search for the closing tag of an item**, with the cursor at an offset: too
long a name fails there, a tag that `closesEarly` misleads, and otherwise the search goes
through. -/
def seek (position : Nat) : Item → Ending
  | element name _ items =>
      if maxNameLength < name.length then
        .failed (.nameTooLong name.length maxNameLength) position
      else if closesEarly name items then .misled
      else .through
  | _ => .through

section Seek

variable {position : Nat} {name : Bytes} {attributes : AttributeList} {items : List Item}

/-- A name of more than `maxNameLength` bytes cannot be looked for, and the cursor stays where it
is. -/
theorem seek_of_long (hlong : maxNameLength < name.length) :
    (element name attributes items).seek position =
      .failed (.nameTooLong name.length maxNameLength) position := if_pos hlong

/-- A tag among the items that ends like the closing tag misleads the search. -/
theorem seek_of_closesEarly (hshort : ¬ maxNameLength < name.length)
    (hearly : closesEarly name items = true) :
    (element name attributes items).seek position = .misled :=
  (if_neg hshort).trans (if_pos hearly)

/-- Any other search finds the element's own closing tag, and so goes `.through` the items. -/
theorem seek_of_not_closesEarly (hshort : ¬ maxNameLength < name.length)
    (hlate : ¬ closesEarly name items = true) :
    (element name attributes items).seek position = .through :=
  (if_neg hshort).trans (if_neg hlate)

end Seek

/-- **How the walk goes on behind a visit**: a stop leaves the walk where the visit ended, and
otherwise what the visit left of the item is skipped by `seek`. A visit that failed or was misled is
settled as it is. -/
def settle (item : Item) (offset : Nat) (signal : Signal) : Ending → Ending
  | .through =>
      match signal with
      | .proceed => .through
      | .stop => .stopped (offset + item.render.length)
  | .stopped position =>
      match signal with
      | .proceed => item.seek position
      | .stop => .stopped position
  | ending => ending

/-- What the policy answers at an item; there is no visit where there is no node, and then the walk
goes on. -/
def signal (policy : Policy) (offset : Nat) (seen : List Node) (item : Item) : Signal :=
  match item.node? offset with
  | none => .proceed
  | some node => (policy (node :: seen)).signal

mutual

/-- **The visit of an item** at an offset, with `depth` scopes open: the account behind it, and
where it leaves the item. Texts and markup are passed; an element is met and then ignored, read or
walked through, as the policy chooses. -/
def visit (policy : Policy) (maxDepth : Nat) : Item → Nat → Nat → Account → Account × Ending
  | text _, _, _, account => (account, .through)
  | markup .., _, _, account => (account, .through)
  | empty name attributes, depth, offset, account =>
      let node : Node := ⟨⟨name, attributes, true⟩, offset + (opening name attributes).length + 2⟩
      let account := account.meet depth node
      match (policy account.seen).use with
      | .readBody => (account.read [], .through)
      | _ => (account, .through)
  | element name attributes items, depth, offset, account =>
      let node : Node := ⟨⟨name, attributes, false⟩, offset + (opening name attributes).length + 1⟩
      let account := account.meet depth node
      match (policy account.seen).use with
      | .ignore => (account, .stopped node.bodyStart)
      | .readBody =>
          match seek node.bodyStart (element name attributes items) with
          | .through => (account.read (renderAll items), .through)
          | ending => (account, ending)
      | .descend =>
          if maxDepth ≤ depth then (account, .failed (.depthExceeded maxDepth) node.bodyStart)
          else walk policy maxDepth items (depth + 1) node.bodyStart account

/-- **The items of an element, one after another**, with `depth` scopes open: `visit`, then
`settle`, and on to the item behind it at `offset + item.render.length` when all of this one is
passed. -/
def walk (policy : Policy) (maxDepth : Nat) : List Item → Nat → Nat → Account → Account × Ending
  | [], _, _, account => (account, .through)
  | item :: items, depth, offset, account =>
      let (visited, ending) := visit policy maxDepth item depth offset account
      match item.settle offset (item.signal policy offset account.seen) ending with
      | .through => walk policy maxDepth items depth (offset + item.render.length) visited
      | ending => (visited, ending)

end

section Walk

variable {policy : Policy} {maxDepth depth offset : Nat} {account : Account} {item : Item}
  {items : List Item} {name : Bytes} {attributes : AttributeList} {node : Node}

/-- An empty element is passed, whatever is done with it; for `.readBody` the body `[]` is read. -/
theorem visit_empty (hnode : (empty name attributes).node? offset = some node) :
    (empty name attributes).visit policy maxDepth depth offset account =
      match (policy (node :: account.seen)).use with
      | .readBody => ((account.meet depth node).read [], .through)
      | _ => (account.meet depth node, .through) := by
  obtain rfl := Option.some.inj hnode
  rfl

/-- **What becomes of an element** is up to `(policy (node :: account.seen)).use`: it is left at its
body, read as far as `seek` allows, or walked through one scope deeper. -/
theorem visit_element (hnode : (element name attributes items).node? offset = some node) :
    (element name attributes items).visit policy maxDepth depth offset account =
      match (policy (node :: account.seen)).use with
      | .ignore => (account.meet depth node, .stopped node.bodyStart)
      | .readBody =>
          match seek node.bodyStart (element name attributes items) with
          | .through => ((account.meet depth node).read (renderAll items), .through)
          | ending => (account.meet depth node, ending)
      | .descend =>
          if maxDepth ≤ depth then
            (account.meet depth node, .failed (.depthExceeded maxDepth) node.bodyStart)
          else walk policy maxDepth items (depth + 1) node.bodyStart (account.meet depth node) := by
  obtain rfl := Option.some.inj hnode
  rfl

/-- An empty element whose body is read has the empty one, `[]`. -/
theorem visit_empty_of_readBody (hnode : (empty name attributes).node? offset = some node)
    (huse : (policy (node :: account.seen)).use = .readBody) :
    (empty name attributes).visit policy maxDepth depth offset account =
      ((account.meet depth node).read [], .through) := by
  rw [visit_empty hnode, huse]

/-- Whatever else is done with it, an empty element is passed. -/
theorem visit_empty_of_ne (hnode : (empty name attributes).node? offset = some node)
    (huse : (policy (node :: account.seen)).use ≠ .readBody) :
    (empty name attributes).visit policy maxDepth depth offset account =
      (account.meet depth node, .through) := by
  rw [visit_empty hnode]
  split
  · rename_i hread
    exact absurd hread huse
  · rfl

/-- An element that is let go is left where its body starts: `.stopped node.bodyStart`. -/
theorem visit_element_of_ignore (hnode : (element name attributes items).node? offset = some node)
    (huse : (policy (node :: account.seen)).use = .ignore) :
    (element name attributes items).visit policy maxDepth depth offset account =
      (account.meet depth node, .stopped node.bodyStart) := by
  rw [visit_element hnode, huse]

/-- The body of an element is read if its closing tag can be found, and it is `renderAll items`. -/
theorem visit_element_of_read (hnode : (element name attributes items).node? offset = some node)
    (huse : (policy (node :: account.seen)).use = .readBody)
    (hseek : (element name attributes items).seek node.bodyStart = .through) :
    (element name attributes items).visit policy maxDepth depth offset account =
      ((account.meet depth node).read (renderAll items), .through) := by
  simp only [visit_element hnode, huse, hseek]

/-- Any other search for its closing tag is how the visit of the element ends, and no body is
read. -/
theorem visit_element_of_unread {ending : Ending}
    (hnode : (element name attributes items).node? offset = some node)
    (huse : (policy (node :: account.seen)).use = .readBody)
    (hseek : (element name attributes items).seek node.bodyStart = ending)
    (hending : ending ≠ .through) :
    (element name attributes items).visit policy maxDepth depth offset account =
      (account.meet depth node, ending) := by
  simp only [visit_element hnode, huse]
  split
  · rename_i hthrough
    exact absurd (hseek.symm.trans hthrough) hending
  · rw [hseek]

/-- Without room for its scope, `maxDepth ≤ depth`, an element is met and not descended into. -/
theorem visit_element_of_full (hnode : (element name attributes items).node? offset = some node)
    (huse : (policy (node :: account.seen)).use = .descend) (hfull : maxDepth ≤ depth) :
    (element name attributes items).visit policy maxDepth depth offset account =
      (account.meet depth node, .failed (.depthExceeded maxDepth) node.bodyStart) := by
  simp only [visit_element hnode, huse, hfull, if_true]

/-- **A descent is a walk over the items**, one scope deeper: with `depth + 1` of them open, from
`node.bodyStart` on. -/
theorem visit_element_of_room (hnode : (element name attributes items).node? offset = some node)
    (huse : (policy (node :: account.seen)).use = .descend) (hroom : ¬ maxDepth ≤ depth) :
    (element name attributes items).visit policy maxDepth depth offset account =
      walk policy maxDepth items (depth + 1) node.bodyStart (account.meet depth node) := by
  simp only [visit_element hnode, huse, hroom, if_false]

/-- Where there is no node, there is no visit. -/
theorem visit_of_node?_eq_none (hnode : item.node? offset = none) :
    item.visit policy maxDepth depth offset account = (account, .through) := by
  cases item with
  | text bytes => rfl
  | markup mark content => rfl
  | empty name attributes => cases hnode
  | element name attributes items => cases hnode

/-- **An item is visited first**, and the walk goes on behind it if `settle` comes `.through`. The
equation of `walk` with its pairs taken apart. -/
theorem walk_cons :
    walk policy maxDepth (item :: items) depth offset account =
      match item.settle offset (item.signal policy offset account.seen)
        (item.visit policy maxDepth depth offset account).2 with
      | .through =>
          walk policy maxDepth items depth (offset + item.render.length)
            (item.visit policy maxDepth depth offset account).1
      | ending => ((item.visit policy maxDepth depth offset account).1, ending) := rfl

/-- An item without a node is passed over, by `item.render.length` bytes. -/
theorem walk_cons_of_node?_eq_none (hnode : item.node? offset = none) :
    walk policy maxDepth (item :: items) depth offset account =
      walk policy maxDepth items depth (offset + item.render.length) account := by
  rw [walk_cons, visit_of_node?_eq_none hnode, signal, hnode]
  rfl

/-- Behind an item that is passed, the walk goes on. -/
theorem walk_cons_of_through
    (h : item.settle offset (item.signal policy offset account.seen)
      (item.visit policy maxDepth depth offset account).2 = .through) :
    walk policy maxDepth (item :: items) depth offset account =
      walk policy maxDepth items depth (offset + item.render.length)
        (item.visit policy maxDepth depth offset account).1 := by
  rw [walk_cons, h]

/-- An item that is not passed ends the walk. -/
theorem walk_cons_of_ne {ending : Ending}
    (h : item.settle offset (item.signal policy offset account.seen)
      (item.visit policy maxDepth depth offset account).2 = ending) (hending : ending ≠ .through) :
    walk policy maxDepth (item :: items) depth offset account =
      ((item.visit policy maxDepth depth offset account).1, ending) := by
  rw [walk_cons]
  split
  · rename_i hthrough
    exact absurd (h.symm.trans hthrough) hending
  · rw [h]

end Walk

/-- **The walk of a parse** whose root element stands at an offset. Without room for the document's
scope there is no visit. -/
def parsed (policy : Policy) (maxDepth offset : Nat) (root : Item) : Account × Ending :=
  if maxDepth = 0 then (.blank, .failed (.depthExceeded maxDepth) offset)
  else visit policy maxDepth root 1 offset .blank

mutual

/-- **An item that can be read in any way**: names are of at most `maxNameLength` bytes, no element
`closesEarly`, and there is room for all scopes. -/
def IsReadable (maxDepth : Nat) : Item → Nat → Prop
  | text _, _ => True
  | markup .., _ => True
  | empty .., _ => True
  | element name _ items, depth =>
      name.length ≤ maxNameLength ∧ closesEarly name items = false ∧ depth < maxDepth ∧
        AllReadable maxDepth items (depth + 1)

/-- Every one of the items can be read in any way. -/
def AllReadable (maxDepth : Nat) : List Item → Nat → Prop
  | [], _ => True
  | item :: items, depth => IsReadable maxDepth item depth ∧ AllReadable maxDepth items depth

end

end Item

end TagWalk

import DeclAtlas.Yaml.Token

/-!
# YAML documents

The tree of a YAML document.  A text holds one document at most; one without content has no
tree.  An alias is a leaf of the tree, since the node that it stands for may hold it; the
document says which node that is.  Nodes nest, so the reader has the number of tokens as its
budget.
-/

namespace DeclAtlas.Yaml

/-- A node of a document. -/
inductive Node
  /-- A scalar; one without quotes is `plain`. -/
  | scalar (plain : Bool) (tag : Option String) (text : String)
  | list (items : List Node)
  | map (entries : List (Node × Node))
  /-- Stands for the node with a number. -/
  | alias (number : Nat)
deriving Repr, Inhabited

/-- What stands for a node that is left out. -/
def Node.nothing : Node := .scalar true none ""

def Node.isAlias : Node → Bool
  | .alias _ => true
  | _ => false

mutual

/-- The size of a node: leaves count once, and collections where they begin and where they
    end. -/
def Node.size : Node → Nat
  | .scalar .. | .alias _ => 1
  | .list ns => itemsSize ns + 2
  | .map es => entriesSize es + 2

def itemsSize : List Node → Nat
  | [] => 0
  | n :: ns => n.size + itemsSize ns

def entriesSize : List (Node × Node) → Nat
  | [] => 0
  | (k, v) :: es => k.size + v.size + entriesSize es

end

/-- A document: its tree, if there is one, and the nodes with numbers.  Of several nodes with a
    number the first counts. -/
structure Document where
  root : Option Node
  numbered : List (Nat × Node)
deriving Repr, Inhabited

/-- The node that a node stands for. -/
def Document.target (d : Document) : Node → Node
  | .alias k => (d.numbered.lookup k).getD (.alias k)
  | n => n

/-- How many aliases may be followed while a document is used.  The bound keeps short texts from
    standing for long ones. -/
def Document.aliasLimit (d : Document) : Nat := 100 * (d.root.elim 1 Node.size)

-- ── Anchors ──────────────────────────────────────────────────────────────────────

/-- The named nodes of a document while it is read.  The number of a node is the number of
    different names before it, so that nodes share numbers where names are given again. -/
structure Anchors where
  /-- The number that each name stands for at the moment. -/
  numbers : List (String × Nat)
  /-- The numbers of the named nodes, counted by their beginnings; the latest comes first. -/
  begun : List (Nat × Nat)
  /-- The named nodes that are complete, by the same count. -/
  done : List (Nat × Node)

namespace Anchors

def none : Anchors := ⟨[], [], []⟩

/-- A named node begins. -/
def start (a : Anchors) (name : String) : Anchors :=
  let number := a.numbers.length
  { a with
    numbers := (name, number) :: a.numbers.filter (·.1 ≠ name)
    begun := (number, a.begun.length) :: a.begun }

/-- The named node that was the `count`-th to begin is complete. -/
def finish (a : Anchors) (count : Nat) (n : Node) : Anchors :=
  { a with done := (count, n) :: a.done }

/-- The nodes with numbers.  Of those that share a number the one that began last comes
    first. -/
def numbered (a : Anchors) : List (Nat × Node) :=
  a.begun.filterMap fun (number, count) => (a.done.lookup count).map (number, ·)

end Anchors

-- ── Nodes ────────────────────────────────────────────────────────────────────────

/-- What a node reader leaves: what the handles of tags stand for, the nodes named so far and the
    tokens behind. -/
structure Rest where
  handles : List (String × String)
  anchors : Anchors
  tokens : List Token

abbrev NodeReader (α : Type) := Rest → Except YamlError (α × Rest)

/-- The token is next. -/
def Rest.at (r : Rest) (ts : List Token) : Bool := r.tokens.head?.any ts.contains

def Rest.skip (r : Rest) : Rest := { r with tokens := r.tokens.tail }

/-- The name and the tag in front of a node. -/
structure Properties where
  anchor : Option String
  tag : Option String

/-- A node with any properties may be left out. -/
def Properties.any (ps : Properties) : Bool := ps.anchor.isSome || ps.tag.isSome

/-- The name and the tag in front of a node, in either order. -/
def properties (r : Rest) : Except YamlError (Properties × Rest) :=
  match r.tokens with
  | .anchor a :: .tag t :: rest | .tag t :: .anchor a :: rest => do
    pure (⟨some a, some (← t.fullName r.handles)⟩, { r with tokens := rest })
  | .anchor a :: rest => .ok (⟨some a, none⟩, { r with tokens := rest })
  | .tag t :: rest => do
    pure (⟨none, some (← t.fullName r.handles)⟩, { r with tokens := rest })
  | _ => .ok (⟨none, none⟩, r)

mutual

/-- A node.  In a block (`block`) it may be a block collection, and as the value of a mapping
    (`indentless`) also a sequence without indentation of its own. -/
def node (block indentless : Bool) : Nat → NodeReader Node
  | 0, _ => .error .badNode
  | n + 1, r =>
    match r.tokens with
    | .alias name :: rest =>
      match r.anchors.numbers.lookup name with
      | some k => .ok (.alias k, { r with tokens := rest })
      | none => .error .unknownAnchor
    | _ => do
      let (ps, r) ← properties r
      match ps.anchor with
      | none => content block indentless ps n r
      | some name =>
        let count := r.anchors.begun.length
        let (v, r) ← content block indentless ps n { r with anchors := r.anchors.start name }
        pure (v, { r with anchors := r.anchors.finish count v })

/-- A node behind its properties; with properties it may be left out.  An exclamation mark alone
    is no tag of a scalar that is there. -/
def content (block indentless : Bool) (ps : Properties) : Nat → NodeReader Node
  | 0, _ => .error .badNode
  | n + 1, r =>
    let missing : Except YamlError (Node × Rest) :=
      if ps.any then .ok (.scalar true ps.tag "", r) else .error .badNode
    match r.tokens with
    | .entry :: _ =>
      if indentless then do
        let (items, r) ← entries true n r
        pure (.list items, r)
      else missing
    | .scalar plain text :: rest =>
      .ok (.scalar plain (ps.tag.filter (· ≠ "!")) text, { r with tokens := rest })
    | .openList :: rest => do
      let (items, r) ← listItems true n { r with tokens := rest }
      pure (.list items, r)
    | .openMap :: rest => do
      let (es, r) ← mapItems true n { r with tokens := rest }
      pure (.map es, r)
    | .blockSequence :: rest =>
      if block then do
        let (items, r) ← entries false n { r with tokens := rest }
        pure (.list items, r)
      else missing
    | .blockMapping :: rest =>
      if block then do
        let (es, r) ← pairs n { r with tokens := rest }
        pure (.map es, r)
      else missing
    | _ => missing

/-- A node that is left out where one of the given tokens is next. -/
def nodeUnless (stops : List Token) (block indentless : Bool) : Nat → NodeReader Node
  | 0, _ => .error .badNode
  | n + 1, r =>
    if r.tokens.isEmpty || r.at stops then .ok (.nothing, r) else node block indentless n r

/-- The items of a block sequence.  One without indentation of its own ends at the first token
    that is no item. -/
def entries (indentless : Bool) : Nat → NodeReader (List Node)
  | 0, _ => .error .badNode
  | n + 1, r =>
    match r.tokens with
    | .entry :: rest => do
      let stops : List Token :=
        if indentless then [.entry, .key, .value, .blockEnd] else [.entry, .blockEnd]
      let (v, r) ← nodeUnless stops true false n { r with tokens := rest }
      let (vs, r) ← entries indentless n r
      pure (v :: vs, r)
    | .blockEnd :: rest => .ok ([], if indentless then r else { r with tokens := rest })
    | _ => if indentless then .ok ([], r) else .error .badNode

/-- The entries of a block mapping. -/
def pairs : Nat → NodeReader (List (Node × Node))
  | 0, _ => .error .badNode
  | n + 1, r =>
    match r.tokens with
    | .blockEnd :: rest => .ok ([], { r with tokens := rest })
    | .key :: rest => do
      let (k, r) ← nodeUnless [.key, .value, .blockEnd] true true n { r with tokens := rest }
      let (v, r) ← valueNode [.key, .value, .blockEnd] true n r
      let (es, r) ← pairs n r
      pure ((k, v) :: es, r)
    | _ => .error .badNode

/-- The value behind a colon, or nothing if there is no colon. -/
def valueNode (stops : List Token) (block : Bool) : Nat → NodeReader Node
  | 0, _ => .error .badNode
  | n + 1, r =>
    match r.tokens with
    | .value :: rest => nodeUnless stops block block n { r with tokens := rest }
    | _ => .ok (.nothing, r)

/-- The items of a list in brackets.  A pair of a key and a value is a mapping of one entry.  A
    question mark without a key takes the indicator behind it in place of the key. -/
def listItems (first : Bool) : Nat → NodeReader (List Node)
  | 0, _ => .error .badNode
  | n + 1, r =>
    if r.at [.closeList] then .ok ([], r.skip)
    else if first || r.at [.comma] then do
      let r := if first then r else r.skip
      if r.at [.closeList] then pure ([], r.skip)
      else if r.at [.key] then
        let r := r.skip
        let (k, r) ←
          if r.at [.value, .comma, .closeList] then pure (.nothing, r.skip)
          else node false false n r
        let (v, r) ← valueNode [.comma, .closeList] false n r
        let (vs, r) ← listItems false n r
        pure (.map [(k, v)] :: vs, r)
      else
        let (v, r) ← node false false n r
        let (vs, r) ← listItems false n r
        pure (v :: vs, r)
    else .error .badNode

/-- The entries of a mapping in braces. -/
def mapItems (first : Bool) : Nat → NodeReader (List (Node × Node))
  | 0, _ => .error .badNode
  | n + 1, r =>
    if r.at [.closeMap] then .ok ([], r.skip)
    else if first || r.at [.comma] then do
      let r := if first then r else r.skip
      if r.at [.closeMap] then pure ([], r.skip)
      else if r.at [.key] then
        let (k, r) ← nodeUnless [.value, .comma, .closeMap] false false n r.skip
        let (v, r) ← valueNode [.comma, .closeMap] false n r
        let (es, r) ← mapItems false n r
        pure ((k, v) :: es, r)
      else
        let (k, r) ← node false false n r
        let (es, r) ← mapItems false n r
        pure ((k, .nothing) :: es, r)
    else .error .badNode

end

-- ── Documents ────────────────────────────────────────────────────────────────────

/-- The directives in front of a document, and the tokens behind. -/
def leadingDirectives : List Token → List Directive × List Token
  | .directive d :: rest =>
    let (ds, rest) := leadingDirectives rest
    (d :: ds, rest)
  | ts => ([], ts)

/-- The only document of a text.  Behind directives it begins with a mark, and behind a mark it
    may be left out.  Only marks may stand behind it. -/
def read (text : String) : Except YamlError Document := do
  let (directives, ts) := leadingDirectives (← tokens text)
  if directives = [] ∧ ts = [] then pure ⟨none, []⟩
  else
    let handles ← Directive.handles directives
    let budget := 8 * (ts.length + 2)
    let (v, r) ←
      match ts with
      | .documentStart :: ts =>
        nodeUnless [.documentStart, .documentEnd] true false budget ⟨handles, .none, ts⟩
      | ts =>
        if directives = [] then node true false budget ⟨handles, .none, ts⟩ else .error .badNode
    if r.tokens.all (· == .documentEnd) then pure ⟨some v, r.anchors.numbered⟩
    else .error .severalDocuments

end DeclAtlas.Yaml

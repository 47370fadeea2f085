import Docsmith.Yaml.Token

/-!
# YAML nodes

The tree of a document.  An alias stands for the node of its anchor, and every node has
its tag; a scalar without one keeps how its tag is to be found.
-/

namespace Docsmith.Yaml

inductive Tag where
  /-- Found from the text of the node. -/
  | implicit
  /-- The kind of the node: a string, sequence or mapping. -/
  | kind
  | named (t : Text)
deriving DecidableEq, Repr

inductive Node where
  | scalar (tag : Tag) (text : Text)
  | sequence (tag : Tag) (items : List Node)
  | mapping (tag : Tag) (entries : List (Node × Node))
  | enclosing
deriving Repr

namespace Node

def missing : Node := .scalar .implicit []

end Node

/-- The leads of tag handles, and the anchors so far; an anchor whose node is not yet
complete has none. -/
structure Scope where
  handles : List (Text × Text)
  anchors : List (Text × Option Node) := []

def standardHandles : List (Text × Text) := [("!", "!"), ("!!", "tag:yaml.org,2002:")]

structure Rest where
  tokens : List Token
  scope : Scope

namespace Rest

def isAt (r : Rest) (ts : List Token) : Bool := r.tokens.head?.any fun t => ts.contains t

def drop (r : Rest) : Rest := { r with tokens := r.tokens.tail }

def declare (anchor : Option Text) (r : Rest) : Except Fault Rest :=
  match anchor with
  | none => .ok r
  | some name =>
      if (r.scope.anchors.lookup name).isSome then .error .malformed
      else .ok { r with scope := { r.scope with anchors := (name, none) :: r.scope.anchors } }

def define (anchor : Option Text) (node : Node) (r : Rest) : Rest :=
  match anchor with
  | none => r
  | some name =>
      { r with scope := { r.scope with anchors := (name, some node) :: r.scope.anchors } }

def properties (r : Rest) : Option Text × Option TagText × Rest :=
  match r.tokens with
  | .anchor a :: .tag t :: ts => (some a, some t, { r with tokens := ts })
  | .tag t :: .anchor a :: ts => (some a, some t, { r with tokens := ts })
  | .anchor a :: ts => (some a, none, { r with tokens := ts })
  | .tag t :: ts => (none, some t, { r with tokens := ts })
  | _ => (none, none, r)

def resolve (t : TagText) (r : Rest) : Except Fault Text :=
  match t.handle with
  | none => .ok t.suffix
  | some h =>
      match r.scope.handles.lookup h with
      | some lead => .ok (lead ++ t.suffix)
      | none => .error .malformed

end Rest

def collectionTag : Option Text → Tag
  | none => .kind
  | some t => if t = "!" then .kind else .named t

/-- The tag of a scalar.  A text that is not plain is a string, unless its tag is left to
be found. -/
def scalarTag (plain : Bool) : Option Text → Tag
  | none => if plain then .implicit else .kind
  | some t => if t = "!" then .implicit else .named t

mutual
/-- A node.  Block collections, and sequences that are not indented, stand only where they
are asked for. -/
def node (block indentless : Bool) : Nat → Rest → Except Fault (Node × Rest)
  | 0, _ => .error .malformed
  | fuel + 1, r => do
      match r.tokens with
      | .alias name :: ts =>
          match r.scope.anchors.lookup name with
          | some n => return (n.getD .enclosing, { r with tokens := ts })
          | none => .error .malformed
      | _ =>
          let (anchor, tag, r) := r.properties
          let tag ← match tag with
            | none => pure none
            | some t => some <$> r.resolve t
          let r ← r.declare anchor
          let (n, r) ←
            if indentless && r.isAt [.blockEntry] then do
              let (items, r) ← indentlessItems fuel r
              pure (Node.sequence (collectionTag tag) items, r)
            else
              match r.tokens with
              | .scalar t plain :: _ => pure (Node.scalar (scalarTag plain tag) t, r.drop)
              | .flowSequenceStart :: _ => do
                  let (items, r) ← flowItems true fuel r.drop
                  pure (Node.sequence (collectionTag tag) items, r)
              | .flowMappingStart :: _ => do
                  let (entries, r) ← flowEntries true fuel r.drop
                  pure (Node.mapping (collectionTag tag) entries, r)
              | .blockSequenceStart :: _ =>
                  if block then do
                    let (items, r) ← blockItems fuel r.drop
                    pure (Node.sequence (collectionTag tag) items, r)
                  else if anchor.isSome || tag.isSome then pure (.scalar (scalarTag true tag) [], r)
                  else .error .malformed
              | .blockMappingStart :: _ =>
                  if block then do
                    let (entries, r) ← blockEntries fuel r.drop
                    pure (Node.mapping (collectionTag tag) entries, r)
                  else if anchor.isSome || tag.isSome then pure (.scalar (scalarTag true tag) [], r)
                  else .error .malformed
              | _ =>
                  if anchor.isSome || tag.isSome then pure (.scalar (scalarTag true tag) [], r)
                  else .error .malformed
          return (n, r.define anchor n)

def nodeUnless (stops : List Token) (block indentless : Bool) :
    Nat → Rest → Except Fault (Node × Rest)
  | 0, _ => .error .malformed
  | fuel + 1, r => if r.isAt stops then .ok (.missing, r) else node block indentless fuel r

def valueNode (stops : List Token) (block : Bool) : Nat → Rest → Except Fault (Node × Rest)
  | 0, _ => .error .malformed
  | fuel + 1, r =>
      if r.isAt [.value] then nodeUnless stops block block fuel r.drop else .ok (.missing, r)

def blockItems : Nat → Rest → Except Fault (List Node × Rest)
  | 0, _ => .error .malformed
  | fuel + 1, r => do
      if r.isAt [.blockEntry] then
        let (n, r) ← nodeUnless [.blockEntry, .blockEnd] true false fuel r.drop
        let (ns, r) ← blockItems fuel r
        return (n :: ns, r)
      else if r.isAt [.blockEnd] then return ([], r.drop)
      else .error .malformed

def indentlessItems : Nat → Rest → Except Fault (List Node × Rest)
  | 0, _ => .error .malformed
  | fuel + 1, r => do
      if r.isAt [.blockEntry] then
        let (n, r) ← nodeUnless [.blockEntry, .key, .value, .blockEnd] true false fuel r.drop
        let (ns, r) ← indentlessItems fuel r
        return (n :: ns, r)
      else return ([], r)

def blockEntries : Nat → Rest → Except Fault (List (Node × Node) × Rest)
  | 0, _ => .error .malformed
  | fuel + 1, r => do
      let stops := [Token.key, .value, .blockEnd]
      if r.isAt [.key] then
        let (k, r) ← nodeUnless stops true true fuel r.drop
        let (v, r) ← valueNode stops true fuel r
        let (es, r) ← blockEntries fuel r
        return ((k, v) :: es, r)
      else if r.isAt [.blockEnd] then return ([], r.drop)
      else .error .malformed

def flowItems (first : Bool) : Nat → Rest → Except Fault (List Node × Rest)
  | 0, _ => .error .malformed
  | fuel + 1, r => do
      if r.isAt [.flowSequenceEnd] then return ([], r.drop)
      if !first && !r.isAt [.flowEntry] then .error .malformed
      let r := if first then r else r.drop
      if r.isAt [.key] then
        let (k, r) ← nodeUnless [.value, .flowEntry, .flowSequenceEnd] false false fuel r.drop
        let (v, r) ← valueNode [.flowEntry, .flowSequenceEnd] false fuel r
        let (ns, r) ← flowItems false fuel r
        return (.mapping .kind [(k, v)] :: ns, r)
      else if r.isAt [.flowSequenceEnd] then return ([], r.drop)
      else
        let (n, r) ← node false false fuel r
        let (ns, r) ← flowItems false fuel r
        return (n :: ns, r)

def flowEntries (first : Bool) : Nat → Rest → Except Fault (List (Node × Node) × Rest)
  | 0, _ => .error .malformed
  | fuel + 1, r => do
      if r.isAt [.flowMappingEnd] then return ([], r.drop)
      if !first && !r.isAt [.flowEntry] then .error .malformed
      let r := if first then r else r.drop
      if r.isAt [.key] then
        let (k, r) ← nodeUnless [.value, .flowEntry, .flowMappingEnd] false false fuel r.drop
        let (v, r) ← valueNode [.flowEntry, .flowMappingEnd] false fuel r
        let (es, r) ← flowEntries false fuel r
        return ((k, v) :: es, r)
      else if r.isAt [.flowMappingEnd] then return ([], r.drop)
      else
        let (k, r) ← node false false fuel r
        let (es, r) ← flowEntries false fuel r
        return ((k, .missing) :: es, r)
end

def handlesOf : Option Nat → List (Text × Text) → List Token →
    Except Fault (List (Text × Text) × List Token)
  | version, handles, .directive d :: ts =>
      match d with
      | .version major =>
          if version.isSome || major ≠ 1 then .error .malformed
          else handlesOf (some major) handles ts
      | .handle name lead =>
          if (handles.lookup name).isSome then .error .malformed
          else handlesOf version ((name, lead) :: handles) ts
      | .other => handlesOf version handles ts
  | _, handles, ts => .ok (handles ++ standardHandles, ts)

def isDocumentMark : Token → Bool
  | .directive _ | .documentStart | .documentEnd => true
  | _ => false

def Node.ofTokens (ts : List Token) : Except Fault (Option Node) := do
  -- each token is looked at in a bounded number of calls
  let fuel := 4 * ts.length + 8
  let (n, r) ← match ts with
    | [] => return none
    | .directive _ :: _ | .documentStart :: _ =>
        let (handles, ts) ← handlesOf none [] ts
        match ts with
        | .documentStart :: ts =>
            let r : Rest := ⟨ts, { handles }⟩
            if ts.isEmpty || ts.head?.any isDocumentMark then pure (.missing, r)
            else node true false fuel r
        | _ => .error .malformed
    | _ => node true false fuel ⟨ts, { handles := standardHandles }⟩
  if r.tokens.all (· = .documentEnd) then return some n else .error .malformed

end Docsmith.Yaml

import Docsmith.Yaml.Node
import Docsmith.Yaml.Scalar

/-!
# The value of a YAML text

Collections are built level by level, so of several faults the one nearest to the root
counts, and of those on one level the first.
-/

namespace Docsmith.Yaml

structure Trouble where
  depth : Nat
  fault : Fault
deriving DecidableEq, Repr

def Trouble.isBefore (e e' : Trouble) : Bool :=
  e.fault ≠ .endless && (e'.fault = .endless || e.depth < e'.depth)

def both {α β : Type} : Except Trouble α → Except Trouble β → Except Trouble (α × β)
  | .ok a, .ok b => .ok (a, b)
  | .error e, .ok _ => .error e
  | .ok _, .error e => .error e
  | .error e, .error e' => .error (if e'.isBefore e then e' else e)

def standardTag (name : Text) : Text := "tag:yaml.org,2002:" ++ name

/-- The kind of a scalar of a tag; none for tags that are not known. -/
def kindOf? (tag : Tag) (t : Text) : Option ScalarKind :=
  match tag with
  | .implicit => some (.ofText t)
  | .kind => some .str
  | .named n => ScalarKind.ofTag? n

def Node.kind? : Node → Option ScalarKind
  | .scalar tag t => kindOf? tag t
  | .sequence (.named n) _ | .mapping (.named n) _ => ScalarKind.ofTag? n
  | _ => none

def isMerge (n : Node) : Bool := n.kind? = some .merge

mutual
def Node.text? : Node → Option Text
  | .scalar _ t => some t
  | .mapping _ entries => plainText? entries
  | _ => none

def plainText? : List (Node × Node) → Option Text
  | [] => none
  | (k, v) :: es => if k.kind? = some .value then v.text? else plainText? es
end

def scalarValue (depth : Nat) (k : ScalarKind) (n : Node) : Except Trouble Value :=
  match k, n, n.text? with
  | _, _, none => .error ⟨depth, .malformed⟩
  | .timestamp, .mapping .., some _ => .error ⟨depth, .notText⟩
  | k, _, some t => (k.read t).mapError (⟨depth, ·⟩)

def keyValue (depth : Nat) (n : Node) : Except Trouble Value :=
  match n.kind? with
  | some .value => scalarValue depth .str n
  | some k => scalarValue depth k n
  | none => .error ⟨depth, .malformed⟩

def collectionTags : List Text := ["seq", "omap", "pairs", "map", "set"]

/-- A tag that does not fit its node.  That a node is not the collection that it should be shows
only when its content is read, a level further down. -/
def misfit (depth : Nat) (tag : Tag) : Trouble :=
  let isCollection := collectionTags.any fun name => tag = .named (standardTag name)
  ⟨if isCollection then depth + 1 else depth, .malformed⟩

def isOfKind (name : Text) : Tag → Bool
  | .named t => t = standardTag name
  | _ => true

mutual
def mergesFit : List (Node × Node) → Bool
  | [] => true
  | (k, v) :: es => (!isMerge k || mergeFits v) && mergesFit es

def mergeFits : Node → Bool
  | .mapping _ entries => mergesFit entries
  | .sequence _ items => mergeItemsFit items
  | _ => false

def mergeItemsFit : List Node → Bool
  | [] => true
  | .mapping _ entries :: ns => mergesFit entries && mergeItemsFit ns
  | _ => false
end

mutual
def Node.toValue (depth : Nat) : Node → Except Trouble Value
  | .scalar tag t =>
      match kindOf? tag t with
      | some k => scalarValue depth k (.scalar tag t)
      | none => .error (misfit depth tag)
  | .sequence tag items =>
      if isOfKind "seq" tag then .list <$> itemValues (depth + 1) items
      else if isOfKind "omap" tag || isOfKind "pairs" tag then
        .list <$> pairValues (depth + 1) items
      else .error (misfit depth tag)
  | .mapping tag entries =>
      if isOfKind "map" tag || isOfKind "set" tag then
        if !mergesFit entries then .error ⟨depth + 1, .malformed⟩
        else
          (fun (merged, own) =>
            let d := Dict.ofEntries (merged ++ own)
            if isOfKind "map" tag then .dict d else .set (d.map Prod.fst))
            <$> entryValues (depth + 1) entries
      else
        match (Node.mapping tag entries).kind? with
        | some k => scalarValue depth k (.mapping tag entries)
        | none => .error (misfit depth tag)
  | .enclosing => .error ⟨depth, .endless⟩

def itemValues (depth : Nat) : List Node → Except Trouble (List Value)
  | [] => .ok []
  | n :: ns => (fun (v, vs) => v :: vs) <$> both (n.toValue depth) (itemValues depth ns)

def pairValues (depth : Nat) : List Node → Except Trouble (List Value)
  | [] => .ok []
  | .mapping _ [(k, v)] :: ns =>
      (fun (pair, vs) => .tuple [pair.1, pair.2] :: vs)
        <$> both (both (k.toValue depth) (v.toValue depth)) (pairValues depth ns)
  | .enclosing :: _ => .error ⟨depth, .endless⟩
  | _ => .error ⟨depth, .malformed⟩

def entryValues (depth : Nat) :
    List (Node × Node) → Except Trouble (List (Value × Value) × List (Value × Value))
  | [] => .ok ([], [])
  | (k, v) :: es =>
      if isMerge k then
        (fun (more, merged, own) => (more ++ merged, own))
          <$> both (mergedValues depth v) (entryValues depth es)
      else
        (fun (entry, merged, own) => (merged, entry :: own))
          <$> both (both (keyValue depth k) (v.toValue depth)) (entryValues depth es)

def mergedValues (depth : Nat) : Node → Except Trouble (List (Value × Value))
  | .mapping _ entries => (fun (merged, own) => merged ++ own) <$> entryValues depth entries
  | .sequence _ items => mergedItems depth items
  | _ => .error ⟨depth, .malformed⟩

def mergedItems (depth : Nat) : List Node → Except Trouble (List (Value × Value))
  | [] => .ok []
  | .mapping _ entries :: ns =>
      (fun ((merged, own), rest) => rest ++ merged ++ own)
        <$> both (entryValues depth entries) (mergedItems depth ns)
  | _ => .error ⟨depth, .malformed⟩
end

def parse (t : Text) : Except Fault Value := do
  match ← Node.ofTokens (← Token.tokenize t) with
  | none => return .null
  | some n => (n.toValue 0).mapError Trouble.fault

end Docsmith.Yaml

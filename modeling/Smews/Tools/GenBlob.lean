import Mathlib.Data.List.Basic
import Mathlib.Data.List.Sort

/-! The encoder of `GenBlob.py`: a list of symbols becomes a trie, then a balanced ternary
search tree, then the array of bytes that the parser walks.
-/

namespace Smews.Tools

abbrev Symbol := List UInt8

--------------------------------------------------
-- The trie
--------------------------------------------------

/-- A node of the trie: a dictionary with the keys `string`, `ref` when it is `final`, and
`childs`.
-/
inductive Node
  | mk (string : Symbol) (ref : Option Nat) (childs : List Node)

def Node.string : Node → Symbol
  | .mk string _ _ => string

def Node.ref : Node → Option Nat
  | .mk _ ref _ => ref

def Node.childs : Node → List Node
  | .mk _ _ childs => childs

/-- The inner loops of `buildTree` for one symbol. The symbols come sorted and without
repetition, so the last character of each always gets a new node, which becomes final.
-/
def insertSymbol (ref : Nat) : Symbol → List Node → List Node
  | [], childs => childs
  | c :: rest, childs =>
      let final := if rest = [] then some ref else none
      if childs.any (fun node => node.string = [c]) then
        childs.map fun node =>
          if node.string = [c] then
            .mk [c] (final.or node.ref) (insertSymbol ref rest node.childs)
          else node
      else
        childs ++ [.mk [c] final (insertSymbol ref rest [])]

/-- `buildTree`: the children of the root. `indexMap` pairs each sorted symbol with its
position in the table.
-/
def buildTree (symbols : List (Symbol × Nat)) : List Node :=
  symbols.foldl (fun childs symbol => insertSymbol symbol.2 symbol.1 childs) []

mutual

/-- `compactTreeRec`: a node without brothers that is not final absorbs its only child. -/
def compactNode (nBrothers : Nat) : Node → Node
  | .mk string ref childs =>
      match nBrothers, ref, compactNodes (childs.length - 1) childs with
      | 0, none, [.mk string' ref' childs'] => .mk (string ++ string') ref' childs'
      | _, ref, childs => .mk string ref childs

def compactNodes (nBrothers : Nat) : List Node → List Node
  | [] => []
  | node :: rest => compactNode nBrothers node :: compactNodes nBrothers rest

end

--------------------------------------------------
-- The ternary tree
--------------------------------------------------

/-- A node of the ternary tree, with the subtrees under the keys `<`, `=` and `>`. -/
inductive Ternary
  | absent
  | node (string : Symbol) (ref : Option Nat) (inf eq sup : Ternary)
deriving DecidableEq, Repr

mutual

def Node.size : Node → Nat
  | .mk _ _ childs => 1 + Node.sizes childs

/-- The number of nodes below, which bounds the recursion of `toTernaryTree`. -/
def Node.sizes : List Node → Nat
  | [] => 0
  | node :: rest => node.size + Node.sizes rest

end

/-- `toTernaryTree` for the list of children under one key: the central node becomes the root
of the lists before and after it.
-/
def balance : Nat → List Node → Ternary
  | 0, _ => .absent
  | fuel + 1, childs =>
      match childs[childs.length / 2]? with
      | none => .absent
      | some (.mk string ref below) =>
          .node string ref (balance fuel (childs.take (childs.length / 2)))
            (balance fuel below) (balance fuel (childs.drop (childs.length / 2 + 1)))

def toTernaryTree : Node → Ternary
  | .mk string ref childs =>
      .node string ref .absent (balance (Node.sizes childs + 1) childs) .absent

/-- `compactTernaryTree`: a node that is not final and has a subtree under `=` only absorbs
it.
-/
def compactTernaryTree : Ternary → Ternary
  | .absent => .absent
  | .node string ref inf eq sup =>
      match ref, compactTernaryTree inf, compactTernaryTree eq, compactTernaryTree sup with
      | none, .absent, .node string' ref' inf' eq' sup', .absent =>
          .node (string ++ string') ref' inf' eq' sup'
      | ref, inf, eq, sup => .node string ref inf eq sup

--------------------------------------------------
-- The array
--------------------------------------------------

def Ternary.isNode : Ternary → Bool
  | .absent => false
  | .node _ _ _ _ _ => true

/-- `flags` of `BLOBRec`. -/
def flags (inf eq sup : Ternary) : UInt8 :=
  (if inf.isNode then 1 else 0) ||| (if eq.isNode then 2 else 0) ||| (if sup.isNode then 4 else 0)

/-- `BLOBRec`. The numbers of the generated array initialise unsigned characters. -/
def blobRec : Ternary → List UInt8
  | .absent => []
  | .node string ref inf eq sup =>
      let returned :=
        (if inf.isNode then [blobRec inf] else [])
          ++ (if eq.isNode then [blobRec eq] else [])
          ++ (if sup.isNode then [blobRec sup] else [])
      string
        ++ (match ref with
          | none => []
          | some ref => [128 + UInt8.ofNat ref])
        ++ (if flags inf eq sup = 2 then []
          else flags inf eq sup :: returned.dropLast.map fun blob => UInt8.ofNat blob.length)
        ++ returned.flatten

/-- The symbols in Python's order of strings, each with its position in the list. -/
def sortedSymbols (symbols : List Symbol) : List (Symbol × Nat) :=
  symbols.zipIdx.insertionSort fun a b => a.1 ≤ b.1

/-- The ternary tree of `genBlobTree`. -/
def genTree (symbols : List Symbol) : Ternary :=
  let tree := Node.mk [] none (buildTree (sortedSymbols symbols))
  compactTernaryTree (toTernaryTree (compactNode 0 tree))

/-- `genBlobTree`. -/
def genBlobTree (symbols : List Symbol) : List UInt8 :=
  blobRec (genTree symbols)

end Smews.Tools

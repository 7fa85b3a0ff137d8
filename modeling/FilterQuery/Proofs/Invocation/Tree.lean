/-
The print of expression nodes, read back. Every node is printed as an object
whose `kind` says which other member to read: the name of a column, the
spelling of an operator, the text of a value, the children of a group. The
reader here goes by those keys alone, in whatever order the members come,
and it fails where a member is missing or is of another type.

Two facts make the print faithful. The reader gives back the nodes from the
tree of their print (`eachOf?_nodeValues`), by induction on the nodes. And
the print is a text of that tree in the format (`written_treeText`), a text
being that of one tree only. So whatever reads the format reads the nodes,
and no text is the print of two lists of nodes.
-/
import FilterQuery.Proofs.Invocation.Overrides
import FilterQuery.Proofs.Json.Indented
import FilterQuery.Proofs.Json.Reading

namespace FilterQuery
namespace Invocation

-- ================================================================ reading

/-- The text that the first member with a key has as its value. -/
def textOf? (key : Text) (ms : List (Option Text × Json.Tree)) :
    Option Text :=
  match ms.lookup (some key) with
  | some (.string t) => t
  | _ => none

mutual

/-- The node that an object of its kind is the print of. -/
def nodeOf? : Json.Tree → Option Node
  | .object ms =>
      match textOf? "kind".toList ms with
      | none => none
      | some kind =>
          if kind = "column_ref".toList then
            (textOf? "name".toList ms).map .column
          else if kind = "operator".toList then
            ((textOf? "op".toList ms).bind Operator.parse?).map .operator
          else if kind = "value".toList then
            (textOf? "raw".toList ms).map .value
          else if kind = "sub_expression".toList then
            (childrenOf? ms).map .group
          else none
  | _ => none

/-- The nodes in the first member with the key of children. -/
def childrenOf? : List (Option Text × Json.Tree) → Option (List Node)
  | [] => none
  | (key, v) :: ms =>
      if key = some "children".toList then nodesOf? v else childrenOf? ms

/-- The nodes in an array. -/
def nodesOf? : Json.Tree → Option (List Node)
  | .array vs => eachOf? vs
  | _ => none

/-- The nodes in some items. -/
def eachOf? : List Json.Tree → Option (List Node)
  | [] => some []
  | v :: vs =>
      match nodeOf? v, eachOf? vs with
      | some n, some ns => some (n :: ns)
      | _, _ => none

end

mutual

/-- A node is read from the tree of its print. -/
theorem nodeOf?_nodeValue : ∀ n : Node,
    nodeOf? (nodeValue n).toTree = some n
  | .column _ => rfl
  | .operator op => congrArg (Option.map _) (Operator.parse?_spelling op)
  | .value _ => rfl
  | .group children => congrArg (Option.map _) (eachOf?_nodeValues children)

/-- Nodes are read from the trees of their print. -/
theorem eachOf?_nodeValues : ∀ ns : List Node,
    eachOf? (Json.Value.itemTrees (nodeValues ns)) = some ns
  | [] => rfl
  | n :: ns => by
      simp only [nodeValues, Json.Value.itemTrees, eachOf?,
        nodeOf?_nodeValue n, eachOf?_nodeValues ns]

end

-- =============================================================== printing

mutual

/-- No number is in the print of a node. -/
theorem all_nodeValue : ∀ n : Node,
    (nodeValue n).All (fun _ => False) (fun _ => True) (fun _ => True)
  | .column _ => ⟨trivial, trivial, trivial, trivial, trivial⟩
  | .operator _ => ⟨trivial, trivial, trivial, trivial, trivial⟩
  | .value _ => ⟨trivial, trivial, trivial, trivial, trivial⟩
  | .group children =>
      ⟨trivial, trivial, trivial, all_nodeValues children, trivial⟩

/-- Nor in the print of several. -/
theorem all_nodeValues : ∀ ns : List Node,
    Json.Value.AllItems (fun _ => False) (fun _ => True) (fun _ => True)
      (nodeValues ns)
  | [] => trivial
  | n :: ns => ⟨all_nodeValue n, all_nodeValues ns⟩

end

/-- The tree that nodes are printed as. -/
def nodesTree (ns : List Node) : Json.Tree :=
  (Json.Value.array (nodeValues ns)).toTree

theorem nodesOf?_nodesTree (ns : List Node) :
    nodesOf? (nodesTree ns) = some ns :=
  eachOf?_nodeValues ns

/-- The print of nodes is a text of their tree. -/
theorem written_treeText (ns : List Node) :
    Json.Written (.padded (nodesTree ns)) (treeText ns) :=
  (Json.Value.written_pretty (fun _ h => h.elim) (.array (nodeValues ns)) 0
    (all_nodeValues ns)).bare

/-- It is a text of no other tree. -/
theorem eq_nodesTree_of_written {ns : List Node} {v : Json.Tree}
    (h : Json.Written (.padded v) (treeText ns)) : v = nodesTree ns := by
  have hread := Json.ofText_of_written h
  rw [Json.ofText_of_written (written_treeText ns)] at hread
  exact (congrArg Json.Document.root hread).symm

/-- No text is the print of two lists of nodes. -/
theorem treeText_injective {ns ns' : List Node}
    (h : treeText ns' = treeText ns) : ns' = ns := by
  have htree := eq_nodesTree_of_written (h ▸ written_treeText ns')
  have hnodes := congrArg nodesOf? htree
  rw [nodesOf?_nodesTree, nodesOf?_nodesTree] at hnodes
  exact Option.some.inj hnodes

/-- Where a query is parsed, its nodes are printed as a text of the format,
whatever they hold and however deep they are nested. The nodes are read from
whatever the text is a text of, and also from what the reader of the format
finds in it. No other nodes are printed alike. -/
theorem run_tree_faithful {i : Invocation} {content : Option Text}
    {s : Schema} {ns : List Node}
    (h : Schema.ofFile i.schema content = .ok s)
    (hcommand : i.command = .tree)
    (hparse : Node.parse (i.mode s) i.query = .ok ns) :
    i.run content = .ok (treeText ns)
      ∧ (∃ v, Json.Written (.padded v) (treeText ns))
      ∧ (∀ v, Json.Written (.padded v) (treeText ns) →
          Json.Document.ofText (treeText ns) = ⟨v, true⟩
            ∧ nodesOf? v = some ns)
      ∧ ∀ ns', treeText ns' = treeText ns → ns' = ns := by
  refine ⟨?_, ⟨_, written_treeText ns⟩, fun v hv => ?_,
    fun ns' => treeText_injective⟩
  · rw [run_tree h hcommand, hparse]
  · refine ⟨Json.ofText_of_written hv, ?_⟩
    rw [eq_nodesTree_of_written hv, nodesOf?_nodesTree]

/-- A backslash and a line feed in a name, and in a value two control
characters and one beyond ASCII. -/
theorem run_tree_faithful_escaped :
    let query : Text := "('\\\n' LIKE \"\x00\x7f\u00e9\")".toList
    let nodes : List Node :=
      [.group [.column "'\\\n'".toList, .operator .like,
        .value "\"\x00\x7f\u00e9\"".toList]]
    let content : Text := "\x7b\"fields\": []\x7d".toList
    let i : Invocation :=
      { schema := "a.json".toList, command := .tree, query }
    Node.parse .strict query = .ok nodes
      ∧ i.run (some content) = .ok (treeText nodes)
      ∧ nodesOf? (Json.Document.ofText (treeText nodes)).root
        = some nodes := by
  intro query nodes content i
  have hs : Schema.ofFile "a.json".toList (some content)
      = .ok { fields := [] } := rfl
  have hparse : Node.parse .strict query = .ok nodes := by
    refine (@Node.parseAt_eq_ok_iff .strict 0 0 _ _ none rfl (by decide)
      (Or.inr ⟨rfl, rfl⟩) _).2 ⟨?_, by decide⟩
    exact .group rfl
      (.column rfl (.comparison rfl rfl (.value (.done rfl)))) (.done rfl)
  obtain ⟨hrun, ⟨v, hv⟩, hread, -⟩ :=
    @run_tree_faithful i (some content) _ nodes hs rfl hparse
  obtain ⟨hdocument, hnodes⟩ := hread v hv
  refine ⟨hparse, hrun, ?_⟩
  rw [hdocument, hnodes]

end Invocation
end FilterQuery

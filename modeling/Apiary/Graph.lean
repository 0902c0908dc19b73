import Apiary.Json.Basic

/-!
A labelled, weighted directed graph with data at its nodes. Edges are kept in the order they came; their
ends need not be nodes.
-/

namespace Apiary

structure Edge where
  source : String
  target : String
  relation : String
  weight : Double

structure Graph where
  nodes : List (String × Json) := []
  edges : Array Edge := #[]

namespace Graph

def addNode (g : Graph) (id : String) (data : Json) : Graph :=
  { g with nodes := setField id data g.nodes }

def addEdge (g : Graph) (e : Edge) : Graph := { g with edges := g.edges.push e }

def query (g : Graph) (start relation : String) : List String :=
  (g.edges.toList.filter fun e => e.source = start ∧ e.relation = relation).map Edge.target

def node? (g : Graph) (id : String) : Option Json := g.nodes.lookup id

end Graph

end Apiary

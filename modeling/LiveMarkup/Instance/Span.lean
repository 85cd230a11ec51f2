import LiveMarkup.Instance.Basic

/-!
# The nodes of an instance

The span of an instance is the list of nodes that its top level occupies: its
top-level nodes in order, and behind the first marker of each region among
them whatever the region holds. Gathering moves the span into a new fragment,
whether the nodes still stand somewhere or not.
-/

namespace LiveMarkup

/-- Top-level nodes, each followed by what the first region that it begins
holds. -/
def assembleSpan (held : List (NodeId × List NodeId)) (nodes : List NodeId) :
    List NodeId :=
  nodes.flatMap fun n => n :: (held.lookup n).getD []

mutual

/-- The span of an instance, given the spans of the shared ones. -/
def Instance.spanWith (shared : InstanceId → List NodeId) : Instance → List NodeId
  | ⟨_, _, nodes, _, regions⟩ => assembleSpan (Region.spansWith shared regions) nodes

/-- The first markers of regions with what the regions hold. -/
def Region.spansWith (shared : InstanceId → List NodeId) :
    List Region → List (NodeId × List NodeId)
  | [] => []
  | ⟨_, _, first, _, content⟩ :: rest =>
      (first, Content.spanWith shared content) :: Region.spansWith shared rest

/-- The nodes of what a region holds. -/
def Content.spanWith (shared : InstanceId → List NodeId) : Content → List NodeId
  | .empty => []
  | .text node _ => [node]
  | .own inner => inner.spanWith shared
  | .shared id => shared id
  | .nodes held => held

end

namespace SharedInstances

/-- The span of a shared instance, its nesting followed down to a depth. -/
def spanWithin (pool : SharedInstances) : Nat → InstanceId → List NodeId
  | 0, _ => []
  | depth + 1, id =>
      match pool[id]? with
      | none => []
      | some i => i.spanWith (pool.spanWithin depth)

/-- The span of a shared instance. Instances never hold themselves, so none is
nested deeper than there are instances. -/
def span (pool : SharedInstances) (id : InstanceId) : List NodeId :=
  pool.spanWithin pool.length id

end SharedInstances

/-- Moves nodes into a new fragment, in order. -/
def Document.gather (d : Document) (span : List NodeId) : NodeId × Document :=
  let (fragment, d) := d.create .fragment
  (fragment, span.foldl (fun d n => d.append fragment n) d)

end LiveMarkup

import Purgo.Lib.Simulation
import Purgo.Pdf

/-!
# Object graphs

What the results about the PDF disarmer speak of: dictionaries written inline, objects reachable
from the trailer, actions reached from the entries that hold them. These are notions of a `Graph`,
of which a document is one (`Document.graph`) and the part of it that the disarmer is to keep is
another (`Document.kept`).

`Correspond` relates two graphs node by node. Everything defined of a graph matches along it, so
that a question about the disarmed document becomes one about the input.
-/

namespace Purgo

open Rust Simulation Relation

namespace Pdf

/-- A trailer, the entries each object has, and the object each id stands for. -/
structure Graph where
  trailer : Object
  entry : Object → Name → Object → Prop
  object : ObjectId → Object → Prop

namespace Graph

variable (G : Graph)

/-- The second object is written inline in the first one. -/
def Child (p q : Object) : Prop := q ∈ p.items ∨ ∃ key, G.entry p key q

/-- The first object is a reference to the second one. -/
def Deref (p q : Object) : Prop := ∃ id, p = .reference id ∧ G.object id q

/-- The trailer, or an indirect object. -/
def Root (o : Object) : Prop := o = G.trailer ∨ ∃ id, G.object id o

/-- The object stands in the graph, at some inline depth. -/
def Contains : Object → Prop := Reached G.Child G.Root

/-- A reference to the id is reachable from the trailer. -/
def Reachable (id : ObjectId) : Prop :=
  ReflTransGen (fun p q => G.Child p q ∨ G.Deref p q) G.trailer (.reference id)

/-- The graph without the objects that are not reachable from the trailer. -/
def pruned : Graph :=
  { G with object := fun id o => G.Reachable id ∧ G.object id o }

/-- The second object is the value of an entry of the first one that holds an action. -/
def Holds (p q : Object) : Prop := G.entry p (ascii "A") q ∨ G.entry p (ascii "Next") q

/-- One step from an action to what follows it. -/
def Follows (p q : Object) : Prop :=
  G.Deref p q ∨ (q ∈ p.items ∨ G.entry p (ascii "Next") q)

/-- What is reached from the action entries of the dictionaries of the graph. -/
def Action : Object → Prop := Reached G.Follows fun q => ∃ p, G.Contains p ∧ G.Holds p q

end Graph

/-- A document as a graph. -/
def Document.graph (doc : Document) : Graph where
  trailer := .dictionary doc.trailer
  entry p key q := (key, q) ∈ p.entries
  object id o := (id, o) ∈ doc.objects

/-- What the disarmer is to keep of a document, as a graph: the entries that are not classified and
the objects that are no payload. -/
def Document.kept (doc : Document) : Graph where
  trailer := .dictionary doc.trailer
  entry p key q := (key, q) ∈ p.entries ∧ classifyKey key q (dangerousActions doc) = none
  object id o := (id, o) ∈ doc.objects ∧ isPayload (dangerousActions doc) (id, o) = false

/-- Pruning a document prunes its graph. -/
theorem Document.graph_pruneObjects {L : Lopdf} (hL : L.Lawful) (doc : Document) :
    (L.pruneObjects doc).graph = doc.graph.pruned := by
  have hobject : (L.pruneObjects doc).graph.object = doc.graph.pruned.object := by
    funext id o
    exact propext ((hL.mem_prune doc id o).trans and_comm)
  rw [Graph.mk.injEq]
  exact ⟨congrArg Object.dictionary (hL.prune_trailer doc), rfl, hobject⟩

/-! ## Corresponding graphs -/

/-- Two graphs correspond along a relation of their objects. -/
structure Correspond (R : Object → Object → Prop) (G H : Graph) : Prop where
  trailer : R G.trailer H.trailer
  items : ∀ ⦃p q⦄, R p q → Matches R (· ∈ p.items) (· ∈ q.items)
  entry : ∀ ⦃p q⦄, R p q → ∀ key, Matches R (G.entry p key) (H.entry q key)
  reference : ∀ ⦃p q⦄, R p q → ∀ id, p = .reference id ↔ q = .reference id
  object : ∀ id, Matches R (G.object id) (H.object id)

namespace Correspond

variable {R : Object → Object → Prop} {G H : Graph}

/-- Corresponding objects have corresponding children. -/
theorem child (h : Correspond R G H) : Bisimulation R G.Child H.Child :=
  fun _ _ hR => (h.items hR).or (.iUnion (h.entry hR))

theorem deref (h : Correspond R G H) : Bisimulation R G.Deref H.Deref :=
  fun _ _ hR => .iUnion fun id => .guard (h.reference hR id) fun _ => h.object id

theorem root (h : Correspond R G H) : Matches R G.Root H.Root :=
  (Matches.singleton h.trailer).or (.iUnion h.object)

/-- What stands in the one graph matches what stands in the other. -/
theorem contains (h : Correspond R G H) : Matches R G.Contains H.Contains := h.root.reached h.child

/-- Corresponding documents reach the same ids. -/
theorem reachable (h : Correspond R G H) (id : ObjectId) : G.Reachable id ↔ H.Reachable id := by
  have hmatch := (h.child.or h.deref).star h.trailer
  refine ⟨?_, ?_⟩
  · intro hG
    obtain ⟨q, hq, hR⟩ := hmatch.left _ hG
    rwa [(h.reference hR id).mp rfl] at hq
  · intro hH
    obtain ⟨p, hp, hR⟩ := hmatch.right _ hH
    rwa [(h.reference hR id).mpr rfl] at hp

/-- Corresponding graphs correspond when both are pruned. -/
theorem pruned (h : Correspond R G H) : Correspond R G.pruned H.pruned where
  trailer := h.trailer
  items := h.items
  entry := h.entry
  reference := h.reference
  object id := .guard (h.reachable id) fun _ => h.object id

theorem holds (h : Correspond R G H) : Bisimulation R G.Holds H.Holds :=
  fun _ _ hR => (h.entry hR _).or (h.entry hR _)

/-- Where one action leads to another, the corresponding ones do. -/
theorem follows (h : Correspond R G H) : Bisimulation R G.Follows H.Follows :=
  h.deref.or fun _ _ hR => (h.items hR).or (h.entry hR _)

/-- The actions of the one graph match those of the other. -/
theorem action (h : Correspond R G H) : Matches R G.Action H.Action :=
  (h.contains.image h.holds).reached h.follows

end Correspond

end Pdf

end Purgo

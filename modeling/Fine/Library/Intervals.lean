import Mathlib

/-!
# Trees of numbered intervals

A forest is well placed when roots stand apart in a stretch, and children in their parent's
interval. Rules say how it grows from left to right and becomes the children of a node.
-/

namespace Fine.Intervals

open List

/-- Number and interval of a node. -/
structure Label where
  number : Nat
  start : Nat
  stop : Nat

/-- A node and the nodes directly inside it. -/
inductive Rose where
  | node (label : Label) (children : List Rose)

namespace Rose

def label : Rose → Label
  | .node label _ => label

def children : Rose → List Rose
  | .node _ children => children

@[induction_eliminator]
theorem children_induction {motive : Rose → Prop}
    (node : ∀ label children, (∀ child ∈ children, motive child) → motive (.node label children))
    (tree : Rose) : motive tree :=
  @Rose.rec motive (fun children => ∀ child ∈ children, motive child) node (by simp)
    (fun _ _ head tail => by simpa using ⟨head, tail⟩) tree

mutual

def nodes : Rose → List Rose
  | .node label children => .node label children :: nodesAll children

/-- The roots of a forest and all nodes inside them. -/
def nodesAll : List Rose → List Rose
  | [] => []
  | tree :: forest => tree.nodes ++ nodesAll forest

end

theorem nodesAll_eq_flatMap (forest : List Rose) : nodesAll forest = forest.flatMap nodes := by
  induction forest with
  | nil => rfl
  | cons tree forest ih => rw [nodesAll, ih, flatMap_cons]

@[simp] theorem nodesAll_append (left right : List Rose) :
    nodesAll (left ++ right) = nodesAll left ++ nodesAll right := by
  simp [nodesAll_eq_flatMap]

theorem nodesAll_perm {left right : List Rose} (perm : left.Perm right) :
    (nodesAll left).Perm (nodesAll right) := by
  rw [nodesAll_eq_flatMap, nodesAll_eq_flatMap]
  exact perm.flatMap_right nodes

/-- The intervals of two nodes have no place in common. -/
def Apart (left right : Rose) : Prop :=
  left.label.stop ≤ right.label.start ∨ right.label.stop ≤ left.label.start

/-- The interval is not empty, and children stand in it, apart. -/
structure Proper (tree : Rose) : Prop where
  nonempty : tree.label.start < tree.label.stop
  inside : ∀ child ∈ tree.children,
    tree.label.start ≤ child.label.start ∧ child.label.stop ≤ tree.label.stop
  apart : tree.children.Pairwise Apart

theorem inside_root (tree : Rose) (proper : ∀ node ∈ tree.nodes, node.Proper) :
    ∀ node ∈ tree.nodes,
      tree.label.start ≤ node.label.start ∧ node.label.stop ≤ tree.label.stop := by
  induction tree with
  | node label children ih =>
    intro node member
    rw [nodes] at member proper
    rcases mem_cons.mp member with rfl | below
    · exact ⟨Nat.le_refl _, Nat.le_refl _⟩
    · rw [nodesAll_eq_flatMap] at below proper
      obtain ⟨child, inside, deeper⟩ := mem_flatMap.mp below
      have root := (proper _ mem_cons_self).inside child inside
      have bounds := ih child inside (fun other within =>
        proper other (mem_cons_of_mem _ (mem_flatMap.mpr ⟨child, inside, within⟩))) node
        deeper
      exact ⟨Nat.le_trans root.1 bounds.1, Nat.le_trans bounds.2 root.2⟩

end Rose

/-- Different numbers, from one up to another. -/
structure Numbered (first next : Nat) (numbers : List Nat) : Prop where
  /-- Numbers are handed out upwards. -/
  forward : first ≤ next
  nodup : numbers.Nodup
  inside : ∀ number ∈ numbers, first ≤ number ∧ number < next

namespace Numbered

variable {first middle next : Nat} {numbers others : List Nat}

theorem nil (number : Nat) : Numbered number number [] := ⟨Nat.le_refl _, nodup_nil, by simp⟩

theorem append (left : Numbered first middle numbers) (right : Numbered middle next others) :
    Numbered first next (numbers ++ others) := by
  refine ⟨Nat.le_trans left.forward right.forward, ?_, ?_⟩
  · refine nodup_append.mpr ⟨left.nodup, right.nodup, ?_⟩
    intro number inLeft other inRight same
    have below := (left.inside number inLeft).2
    have above := (right.inside other inRight).1
    omega
  · intro number member
    rcases mem_append.mp member with inLeft | inRight
    · have bounds := left.inside number inLeft
      have forward := right.forward
      omega
    · have bounds := right.inside number inRight
      have forward := left.forward
      omega

theorem cons (inner : Numbered first next numbers) :
    Numbered first (next + 1) (next :: numbers) := by
  have forward := inner.forward
  refine ⟨by omega, nodup_cons.mpr ⟨?_, inner.nodup⟩, ?_⟩
  · intro member
    have bounds := inner.inside next member
    omega
  · intro number member
    rcases mem_cons.mp member with rfl | member
    · omega
    · have bounds := inner.inside number member
      omega

theorem skip (inner : Numbered first middle numbers) (forward : middle ≤ next) :
    Numbered first next numbers := by
  refine ⟨Nat.le_trans inner.forward forward, inner.nodup, ?_⟩
  intro number member
  have bounds := inner.inside number member
  omega

theorem perm (numbered : Numbered first next numbers) (perm : numbers.Perm others) :
    Numbered first next others :=
  ⟨numbered.forward, perm.nodup_iff.mp numbered.nodup, fun number member =>
    numbered.inside number (perm.mem_iff.mpr member)⟩

end Numbered

/-- The trees stand apart in a stretch, and all their nodes are proper. -/
structure Placed (low high : Nat) (forest : List Rose) : Prop where
  forward : low ≤ high
  inside : ∀ tree ∈ forest, low ≤ tree.label.start ∧ tree.label.stop ≤ high
  apart : forest.Pairwise Rose.Apart
  proper : ∀ tree ∈ Rose.nodesAll forest, tree.Proper

namespace Placed

variable {low middle next high : Nat} {forest others : List Rose}

theorem nil (forward : low ≤ high) : Placed low high [] :=
  ⟨forward, by simp, List.Pairwise.nil, by simp [Rose.nodesAll]⟩

theorem single {tree : Rose} (placed : Placed low high [tree]) :
    low ≤ tree.label.start ∧ tree.label.start < tree.label.stop ∧ tree.label.stop ≤ high := by
  have bounds := placed.inside tree (mem_singleton_self _)
  have proper := placed.proper tree (by cases tree; simp [Rose.nodesAll, Rose.nodes])
  exact ⟨bounds.1, proper.nonempty, bounds.2⟩

theorem widen (placed : Placed low high forest) {low' high' : Nat} (left : low' ≤ low)
    (right : high ≤ high') : Placed low' high' forest := by
  have forward := placed.forward
  refine ⟨by omega, ?_, placed.apart, placed.proper⟩
  intro tree member
  have bounds := placed.inside tree member
  omega

theorem append (left : Placed low middle forest) (gap : middle ≤ next)
    (right : Placed next high others) : Placed low high (forest ++ others) := by
  have forward := left.forward
  have forward' := right.forward
  refine ⟨by omega, ?_, ?_, ?_⟩
  · intro tree member
    rcases mem_append.mp member with inLeft | inRight
    · have bounds := left.inside tree inLeft
      omega
    · have bounds := right.inside tree inRight
      omega
  · refine pairwise_append.mpr ⟨left.apart, right.apart, ?_⟩
    intro tree inLeft other inRight
    have before := (left.inside tree inLeft).2
    have after := (right.inside other inRight).1
    exact .inl (by omega)
  · intro tree member
    rw [Rose.nodesAll_append] at member
    rcases mem_append.mp member with inLeft | inRight
    · exact left.proper tree inLeft
    · exact right.proper tree inRight

theorem perm (placed : Placed low high forest) (perm : forest.Perm others) :
    Placed low high others := by
  refine ⟨placed.forward, fun tree member => placed.inside tree (perm.mem_iff.mpr member), ?_, ?_⟩
  · exact perm.pairwise placed.apart fun apart => apart.symm
  · exact fun tree member => placed.proper tree ((Rose.nodesAll_perm perm).mem_iff.mpr member)

theorem node (placed : Placed low high forest) {label : Label} (left : low ≤ label.start)
    (right : label.stop ≤ high) (nonempty : label.start < label.stop)
    (around : ∀ tree ∈ forest, label.start ≤ tree.label.start ∧ tree.label.stop ≤ label.stop) :
    Placed low high [.node label forest] := by
  refine ⟨placed.forward, ?_, pairwise_singleton _ _, ?_⟩
  · intro tree member
    rw [mem_singleton.mp member]
    exact ⟨left, right⟩
  · intro tree member
    simp only [Rose.nodesAll, Rose.nodes, append_nil] at member
    rcases mem_cons.mp member with rfl | inside
    · exact ⟨nonempty, around, placed.apart⟩
    · exact placed.proper tree inside

theorem inside_stretch (placed : Placed low high forest) :
    ∀ node ∈ Rose.nodesAll forest, low ≤ node.label.start ∧ node.label.stop ≤ high := by
  intro node member
  have proper := placed.proper
  rw [Rose.nodesAll_eq_flatMap] at member proper
  obtain ⟨tree, root, inside⟩ := mem_flatMap.mp member
  have bounds := placed.inside tree root
  have within := tree.inside_root (fun other below =>
    proper other (mem_flatMap.mpr ⟨tree, root, below⟩)) node inside
  exact ⟨Nat.le_trans bounds.1 within.1, Nat.le_trans within.2 bounds.2⟩

end Placed

def numbersOf (forest : List Rose) : List Nat := (Rose.nodesAll forest).map fun tree =>
  tree.label.number

@[simp] theorem numbersOf_append (left right : List Rose) :
    numbersOf (left ++ right) = numbersOf left ++ numbersOf right := by
  simp [numbersOf]

end Fine.Intervals

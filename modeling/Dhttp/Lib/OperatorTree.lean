import Mathlib.Logic.Basic

namespace Dhttp.Lib
set_option autoImplicit true

/-- Expression trees with binary operators from `β`, a negation, and leaves from `α`. -/
inductive OpTree (β α : Type) where
  | leaf (a : α)
  | neg (t : OpTree β α)
  | node (b : β) (l r : OpTree β α)
  deriving Repr, DecidableEq

namespace OpTree

def map (f : α → γ) : OpTree β α → OpTree β γ
  | .leaf a => .leaf (f a)
  | .neg t => .neg (t.map f)
  | .node b l r => .node b (l.map f) (r.map f)

/-- The tree without the data at its leaves. -/
def shape (t : OpTree β α) : OpTree β Unit := t.map fun _ => ()

/-- The preorder listing, with a symbol for each constructor. -/
def preorder (neg : γ) (node : β → γ) (leaf : α → γ) : OpTree β α → List γ
  | .leaf a => [leaf a]
  | .neg t => neg :: t.preorder neg node leaf
  | .node b l r => node b :: (l.preorder neg node leaf ++ r.preorder neg node leaf)

/-- The leaves replaced by trees. -/
def bind (f : α → OpTree β γ) : OpTree β α → OpTree β γ
  | .leaf a => f a
  | .neg t => .neg (t.bind f)
  | .node b l r => .node b (l.bind f) (r.bind f)

/-- Every leaf satisfies `P`. -/
def All (P : α → Prop) : OpTree β α → Prop
  | .leaf a => P a
  | .neg t => t.All P
  | .node _ l r => l.All P ∧ r.All P

theorem map_map (g : γ → δ) (f : α → γ) (t : OpTree β α) :
    (t.map f).map g = t.map (g ∘ f) := by
  induction t with
  | leaf => rfl
  | neg t ih => simp only [map, ih]
  | node b l r ihl ihr => simp only [map, ihl, ihr]

@[simp] theorem map_id (t : OpTree β α) : t.map id = t := by
  induction t with
  | leaf => rfl
  | neg t ih => simp only [map, ih]
  | node b l r ihl ihr => simp only [map, ihl, ihr]

@[simp] theorem shape_map (f : α → γ) (t : OpTree β α) : (t.map f).shape = t.shape :=
  map_map _ _ _

@[simp] theorem shape_leaf (a : α) : (OpTree.leaf (β := β) a).shape = .leaf () := rfl

@[simp] theorem shape_neg (t : OpTree β α) : t.neg.shape = t.shape.neg := rfl

@[simp] theorem shape_node (b : β) (l r : OpTree β α) :
    (OpTree.node b l r).shape = .node b l.shape r.shape := rfl

theorem bind_leaf (f : α → γ) (t : OpTree β α) : (t.bind fun a => .leaf (f a)) = t.map f := by
  induction t with
  | leaf => rfl
  | neg t ih => simp only [bind, map, ih]
  | node b l r ihl ihr => simp only [bind, map, ihl, ihr]

theorem all_of_forall {P : α → Prop} (h : ∀ a, P a) (t : OpTree β α) : t.All P := by
  induction t with
  | leaf a => exact h a
  | neg t ih => exact ih
  | node b l r ihl ihr => exact ⟨ihl, ihr⟩

/-- Every shape carries a constant labelling. -/
theorem shape_fill (s : OpTree β Unit) (a : α) : (s.map fun _ => a).shape = s := by
  rw [shape_map]
  exact map_id s

theorem preorder_map (neg : γ) (node : β → γ) (leaf : δ → γ) (f : α → δ) (t : OpTree β α) :
    (t.map f).preorder neg node leaf = t.preorder neg node (leaf ∘ f) := by
  induction t with
  | leaf => rfl
  | neg t ih => simp only [map, preorder, ih]
  | node b l r ihl ihr => simp only [map, preorder, ihl, ihr]

theorem map_preorder (g : γ → δ) (neg : γ) (node : β → γ) (leaf : α → γ) (t : OpTree β α) :
    (t.preorder neg node leaf).map g = t.preorder (g neg) (g ∘ node) (g ∘ leaf) := by
  induction t with
  | leaf => rfl
  | neg t ih => simp only [preorder, List.map_cons, ih]
  | node b l r ihl ihr =>
    simp only [preorder, List.map_cons, List.map_append, ihl, ihr, Function.comp_apply]

end OpTree
end Dhttp.Lib

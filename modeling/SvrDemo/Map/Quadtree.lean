import SvrDemo.Lua.Table

/-!
# The quadtree of a map

`quadtree.lua` stores the positions of the characters of a map. A tree is a rectangle with the objects
inside it. `insert` splits the tree when the length of the table of objects is two or more, by a call of
`self:subdivide`. The module has no such method, for its name there is `subdevide`, so a call that would
split raises after it has stored the object. No tree ever gets children, and the branches for them are
left out here.

The keys of the table are the ids of the characters, so it is no sequence, and the length operator may
give any border of it. It is a parameter `length`. A query visits the objects in the order in which
`pairs` yields them, which is a parameter too.
-/

set_option autoImplicit false
set_option relaxedAutoImplicit false

namespace SvrDemo.Map

open Lua

/-- Where an object is. -/
structure Point where
  x : ℤ
  y : ℤ
  deriving DecidableEq

/-- A tree without children. -/
structure Quadtree where
  left : ℤ
  top : ℤ
  right : ℤ
  bottom : ℤ
  object : Table Point

namespace Quadtree

/-- `quadtree.new`. -/
def new (left top right bottom : ℤ) : Quadtree := ⟨left, top, right, bottom, ∅⟩

/-- Store an object in a tree. -/
def store (tree : Quadtree) (id : ℕ) (x y : ℤ) : Quadtree :=
  { tree with object := tree.object.insert id ⟨x, y⟩ }

/-- What `quadtree:insert` does. -/
inductive Inserted
  /-- The point is out of bounds. -/
  | outside
  /-- The object is in the tree, which does not split. -/
  | inserted (tree : Quadtree)
  /-- The object is in the tree, and the attempt to split it raises. -/
  | raised (tree : Quadtree)

/-- `quadtree:insert`. -/
def insert (length : Finset ℕ → ℕ) (tree : Quadtree) (id : ℕ) (x y : ℤ) : Inserted :=
  if x < tree.left ∨ x > tree.right ∨ y < tree.top ∨ y > tree.bottom then .outside
  else if length (tree.store id x y).object.keys ≥ 2 then .raised (tree.store id x y)
  else .inserted (tree.store id x y)

/-- `quadtree:remove`. -/
def remove (tree : Quadtree) (id : ℕ) : Quadtree :=
  { tree with object := tree.object.erase id }

/-- The objects that `quadtree:query` adds to the result, in the order of the traversal. -/
def query (tree : Quadtree) (id : ℕ) (left top right bottom : ℤ) (order : List ℕ) : List ℕ :=
  if left > tree.right ∨ right < tree.left ∨ top > tree.bottom ∨ bottom < tree.top then []
  else order.filter fun key ↦
    match tree.object.lookup key with
    | some point => key ≠ id ∧ point.x > left ∧ point.x < right ∧ point.y > top ∧ point.y < bottom
    | none => false

/-- A point inside the bounds of the tree. -/
def InBounds (tree : Quadtree) (x y : ℤ) : Prop :=
  tree.left ≤ x ∧ x ≤ tree.right ∧ tree.top ≤ y ∧ y ≤ tree.bottom

instance (tree : Quadtree) (x y : ℤ) : Decidable (tree.InBounds x y) :=
  inferInstanceAs (Decidable (_ ∧ _))

variable {length : Finset ℕ → ℕ} {tree next : Quadtree} {id : ℕ} {x y : ℤ}

/-- An insertion that succeeds was in bounds, and adds the object. -/
theorem insert_eq_inserted (h : tree.insert length id x y = .inserted next) :
    tree.InBounds x y ∧ next = tree.store id x y := by
  unfold insert at h
  split at h
  · cases h
  · next hbounds =>
    split at h
    · cases h
    · push Not at hbounds
      exact ⟨⟨hbounds.1, hbounds.2.1, hbounds.2.2.1, hbounds.2.2.2⟩, (Inserted.inserted.inj h).symm⟩

/-- When all objects are in bounds, a query finds exactly the objects inside the rectangle: the early
return misses none. -/
theorem mem_query {left top right bottom : ℤ} {order : List ℕ} {key : ℕ}
    (hbounds : ∀ key point, tree.object.lookup key = some point → tree.InBounds point.x point.y)
    (horder : IsOrder order tree.object.keys) :
    key ∈ tree.query id left top right bottom order ↔
      key ≠ id ∧ ∃ point, tree.object.lookup key = some point ∧
        (left < point.x ∧ point.x < right) ∧ top < point.y ∧ point.y < bottom := by
  unfold query
  split
  · next hout =>
    refine ⟨fun h ↦ absurd h List.not_mem_nil, ?_⟩
    rintro ⟨-, point, hpoint, ⟨hleft, hright⟩, htop, hbottom⟩
    obtain ⟨h₁, h₂, h₃, h₄⟩ := hbounds key point hpoint
    omega
  · rw [List.mem_filter, horder.mem_iff, Table.mem_keys_iff]
    constructor
    · rintro ⟨⟨point, hpoint⟩, hinside⟩
      simp only [hpoint, decide_eq_true_eq] at hinside
      exact ⟨hinside.1, point, hpoint, ⟨hinside.2.1, hinside.2.2.1⟩, hinside.2.2.2⟩
    · rintro ⟨hne, point, hpoint, ⟨hleft, hright⟩, htop, hbottom⟩
      refine ⟨⟨point, hpoint⟩, ?_⟩
      simp only [hpoint, decide_eq_true_eq]
      exact ⟨hne, hleft, hright, htop, hbottom⟩

/-- A query finds an object once. -/
theorem nodup_query {left top right bottom : ℤ} {order : List ℕ}
    (horder : IsOrder order tree.object.keys) :
    (tree.query id left top right bottom order).Nodup := by
  unfold query
  split
  · exact List.nodup_nil
  · exact horder.1.filter _

end Quadtree

end SvrDemo.Map

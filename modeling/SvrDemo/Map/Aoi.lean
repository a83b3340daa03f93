import SvrDemo.Map.Quadtree

/-!
# The area of interest of a map

`aoi.lua` keeps, for every character on a map, the list of the characters near it. `insert` and `remove`
maintain the lists of both sides. `update` computes the new list of the character that has moved, and
leaves the lists of the others as they are.

A list is the set of its keys. The traversals whose order can matter to the code follow an order that
the call supplies. A call that fails returns the state it leaves behind: `update` has already taken
the character out of the tree when its new position is out of bounds.
-/

set_option autoImplicit false
set_option relaxedAutoImplicit false

namespace SvrDemo.Map

open Lua

/-- The coordinates of a position that the map reads. -/
structure Position where
  x : ℤ
  z : ℤ
  deriving DecidableEq

/-- An entry of the table `object`. Its field `qtree` is the root of the tree. -/
structure Entry where
  pos : Position
  list : Finset ℕ

/-- The state of the module. -/
structure Aoi where
  object : Table Entry
  qtree : Quadtree
  radius : ℤ

namespace Aoi

/-- `aoi.init`. -/
def init (left top right bottom radius : ℤ) : Aoi := ⟨∅, .new left top right bottom, radius⟩

/-- The query around a position. -/
def around (aoi : Aoi) (id : ℕ) (pos : Position) (order : List ℕ) : List ℕ :=
  aoi.qtree.query id (pos.x - aoi.radius) (pos.z - aoi.radius) (pos.x + aoi.radius)
    (pos.z + aoi.radius) order

/-- One turn of the loop of `aoi.insert` over the result of the query. -/
def meet (id : ℕ) (state : Finset ℕ × Table Entry) (cid : ℕ) : Finset ℕ × Table Entry :=
  match state.2.lookup cid with
  | some _ =>
    (insert cid state.1, state.2.update cid fun entry ↦ { entry with list := insert id entry.list })
  | none => state

/-- The part of `aoi.insert` after the tree has the character. -/
def enter (aoi : Aoi) (tree : Quadtree) (id : ℕ) (pos : Position) (order : List ℕ) :
    Aoi × Finset ℕ :=
  let result := { aoi with qtree := tree }.around id pos order
  let (list, object) := result.foldl (meet id) (∅, aoi.object)
  (⟨object.insert id ⟨pos, list⟩, tree, aoi.radius⟩, list)

/-- `aoi.insert`. -/
def insert (length : Finset ℕ → ℕ) (aoi : Aoi) (id : ℕ) (pos : Position) (order : List ℕ) :
    Except Aoi (Aoi × Finset ℕ) :=
  match aoi.object.lookup id with
  | some _ => .error aoi
  | none =>
    match aoi.qtree.insert length id pos.x pos.z with
    | .outside => .error aoi
    | .raised tree => .error { aoi with qtree := tree }
    | .inserted tree => .ok (aoi.enter tree id pos order)

/-- `aoi.remove`. -/
def remove (aoi : Aoi) (id : ℕ) (order : List ℕ) : Except Aoi (Aoi × Finset ℕ) :=
  match aoi.object.lookup id with
  | none => .error aoi
  | some c =>
    let object := order.foldl (fun object v ↦
      object.update v fun entry ↦ { entry with list := entry.list.erase id }) aoi.object
    .ok ({ aoi with object := object.erase id, qtree := aoi.qtree.remove id }, c.list)

/-- What `aoi.update` returns: the characters that have come into the list, that have stayed in it,
and that have left it. -/
structure Moved where
  nlist : Finset ℕ
  ulist : Finset ℕ
  olist : Finset ℕ
  deriving DecidableEq

/-- The part of `aoi.update` after the tree has the new position. -/
def move (aoi : Aoi) (c : Entry) (tree : Quadtree) (id : ℕ) (pos : Position) (order : List ℕ) :
    Aoi × Moved :=
  let found := ({ aoi with qtree := tree }.around id pos order).toFinset
  let ulist := found ∩ c.list
  let olist := c.list \ ulist
  let nlist := found \ ulist
  (⟨aoi.object.update id fun _ ↦ ⟨pos, nlist ∪ ulist⟩, tree, aoi.radius⟩, ⟨nlist, ulist, olist⟩)

/-- `aoi.update`. -/
def update (length : Finset ℕ → ℕ) (aoi : Aoi) (id : ℕ) (pos : Position) (order : List ℕ) :
    Except Aoi (Aoi × Moved) :=
  match aoi.object.lookup id with
  | none => .error aoi
  | some c =>
    match (aoi.qtree.remove id).insert length id pos.x pos.z with
    | .outside => .error { aoi with qtree := aoi.qtree.remove id }
    | .raised tree => .error { aoi with qtree := tree }
    | .inserted tree => .ok (aoi.move c tree id pos order)

end Aoi

/-! ### Calls -/

/-- A call of the module. The order is the one in which its traversal visits the keys. -/
inductive Call
  | insert (id : ℕ) (pos : Position) (order : List ℕ)
  | remove (id : ℕ) (order : List ℕ)
  | update (id : ℕ) (pos : Position) (order : List ℕ)
  deriving DecidableEq

/-- The character of a call. -/
def Call.id : Call → ℕ
  | .insert id _ _ | .remove id _ | .update id _ _ => id

namespace Aoi

/-- The keys that the traversal of a call visits: those of the tree, which has the character by then,
and those of the list of a character that leaves. -/
def visited (aoi : Aoi) : Call → Finset ℕ
  | .insert id _ _ | .update id _ _ => Insert.insert id aoi.qtree.object.keys
  | .remove id _ => ((aoi.object.lookup id).map Entry.list).getD ∅

/-- The order of a call. -/
def orderOf : Call → List ℕ
  | .insert _ _ order | .remove _ order | .update _ _ order => order

/-- The state that a call of the module leaves, whether it succeeds or not. -/
def after (length : Finset ℕ → ℕ) (aoi : Aoi) : Call → Aoi
  | .insert id pos order =>
    match aoi.insert length id pos order with
    | .ok (next, _) | .error next => next
  | .remove id order =>
    match aoi.remove id order with
    | .ok (next, _) | .error next => next
  | .update id pos order =>
    match aoi.update length id pos order with
    | .ok (next, _) | .error next => next

/-- A successful call. -/
def call (length : Finset ℕ → ℕ) (aoi : Aoi) (call : Call) : Option Aoi :=
  if IsOrder (orderOf call) (aoi.visited call) then
    match call with
    | .insert id pos order => (aoi.insert length id pos order).toOption.map Prod.fst
    | .remove id order => (aoi.remove id order).toOption.map Prod.fst
    | .update id pos order => (aoi.update length id pos order).toOption.map Prod.fst
  else none

/-- A sequence of successful calls. -/
def calls (length : Finset ℕ → ℕ) (aoi : Aoi) (list : List Call) : Option Aoi :=
  list.foldlM (call length) aoi

end Aoi

end SvrDemo.Map

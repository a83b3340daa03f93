import SvrDemo.Map.Quadtree

/-!
# The quadtree as an index of points

All of `quadtree.lua` that a call can reach, for ids of any kind. A node has a table of objects or four
children. A leaf splits when the length of its table is two or more, by the method `subdivide`, which the module
does not have: it is called `subdevide` there, and nobody calls it. The insertion raises after it has stored the
object.

`points` says what an index of points is for: a table from ids to points. After any calls the tree is one leaf
with this table (`after_eq_leaf`), so `remove` removes and a query finds what it should. What is left is the
insertions, and `point_index_iff` says which runs they do not fail in. The language promises of the length of a
table only that it is a border (`IsLength`).
-/

set_option autoImplicit false
set_option relaxedAutoImplicit false

namespace SvrDemo.Map

/-- The points of some objects. -/
abbrev Objects (κ : Type) : Type := Finmap fun _ : κ ↦ Point

/-- A node of the tree. No children stand for the nil that the field has in a leaf. -/
inductive Node (κ : Type)
  | mk (left top right bottom : ℤ) (object : Option (Objects κ)) (children : List (Node κ))

namespace Node

/-- What `quadtree:insert` does to a node or to the children of one: it returns nil, or the node that has
taken the object, or raises. -/
inductive Insertion (κ σ : Type)
  | outside
  | returned (state : σ) (node : Node κ)
  | raised (state : σ)

variable {κ : Type} [DecidableEq κ]

/-! ### The methods -/

/-- `quadtree.new`. -/
def new (left top right bottom : ℤ) : Node κ := .mk left top right bottom (some ∅) []

mutual

/-- `quadtree:insert`. -/
def insert (length : Finset κ → ℕ) (id : κ) (x y : ℤ) : Node κ → Insertion κ (Node κ)
  | .mk left top right bottom object children =>
    if x < left ∨ x > right ∨ y < top ∨ y > bottom then .outside
    else if children.isEmpty then
      match object with
      | none => .raised (.mk left top right bottom none [])
      | some object =>
        let self := .mk left top right bottom (some (object.insert id ⟨x, y⟩)) []
        -- there is no method of the name that is called
        if length (object.insert id ⟨x, y⟩).keys ≥ 2 then .raised self else .returned self self
    else match insertAny length id x y children with
      | .outside => .outside
      | .returned children node => .returned (.mk left top right bottom object children) node
      | .raised children => .raised (.mk left top right bottom object children)

/-- The loop of `quadtree:insert` over the children. -/
def insertAny (length : Finset κ → ℕ) (id : κ) (x y : ℤ) : List (Node κ) → Insertion κ (List (Node κ))
  | [] => .outside
  | child :: children =>
    match insert length id x y child with
    | .returned child node => .returned (child :: children) node
    | .raised child => .raised (child :: children)
    | .outside =>
      match insertAny length id x y children with
      | .outside => .outside
      | .returned children node => .returned (child :: children) node
      | .raised children => .raised (child :: children)

end

mutual

/-- `quadtree:remove`. -/
def remove (id : κ) : Node κ → Node κ × Bool
  | .mk left top right bottom (some object) children =>
    if id ∈ object then (.mk left top right bottom (some (object.erase id)) children, true)
    else (.mk left top right bottom (some object) children, false)
  | .mk left top right bottom none children =>
    let (children, removed) := removeAny id children
    (.mk left top right bottom none children, removed)

/-- The loop of `quadtree:remove` over the children. -/
def removeAny (id : κ) : List (Node κ) → List (Node κ) × Bool
  | [] => ([], false)
  | child :: children =>
    match remove id child with
    | (child, true) => (child :: children, true)
    | (child, false) =>
      let (children, removed) := removeAny id children
      (child :: children, removed)

end

mutual

/-- `quadtree:query`, with the order in which it visits the objects of a leaf. It raises at a node that has
neither objects nor children. -/
def query (order : Finset κ → List κ) (id : κ) (left top right bottom : ℤ) :
    Node κ → List κ → Option (List κ)
  | .mk nodeLeft nodeTop nodeRight nodeBottom object children, result =>
    if left > nodeRight ∨ right < nodeLeft ∨ top > nodeBottom ∨ bottom < nodeTop then some result
    else if children.isEmpty then
      object.map fun object ↦ result ++ (order object.keys).filter fun key ↦
        match object.lookup key with
        | some point => key ≠ id ∧ point.x > left ∧ point.x < right ∧ point.y > top ∧ point.y < bottom
        | none => false
    else queryAll order id left top right bottom children result

/-- The loop of `quadtree:query` over the children. -/
def queryAll (order : Finset κ → List κ) (id : κ) (left top right bottom : ℤ) :
    List (Node κ) → List κ → Option (List κ)
  | [], result => some result
  | child :: children, result =>
    (query order id left top right bottom child result).bind
      (queryAll order id left top right bottom children)

end

/-! ### A leaf -/

section Leaf

variable {length : Finset κ → ℕ} {order : Finset κ → List κ} {id : κ} {x y left top right bottom : ℤ}
  {nodeLeft nodeTop nodeRight nodeBottom : ℤ} {object : Objects κ}

/-- A leaf with some objects. -/
def leaf (left top right bottom : ℤ) (object : Objects κ) : Node κ := .mk left top right bottom (some object) []

/-- A leaf stores an object within its bounds, and raises when it is to split. -/
theorem insert_leaf (hbounds : (left ≤ x ∧ x ≤ right) ∧ top ≤ y ∧ y ≤ bottom) :
    insert length id x y (leaf left top right bottom object) =
      if length (object.insert id ⟨x, y⟩).keys < 2 then
        .returned (leaf left top right bottom (object.insert id ⟨x, y⟩))
          (leaf left top right bottom (object.insert id ⟨x, y⟩))
      else .raised (leaf left top right bottom (object.insert id ⟨x, y⟩)) := by
  rw [leaf, insert, if_neg (by omega), if_pos List.isEmpty_nil]
  by_cases hlength : length (object.insert id ⟨x, y⟩).keys < 2
  · rw [if_pos hlength]
    exact if_neg (Nat.not_le_of_lt hlength)
  · rw [if_neg hlength]
    exact if_pos (Nat.le_of_not_lt hlength)

theorem erase_eq_self (hmem : id ∉ object) : object.erase id = object := by
  refine Finmap.ext_lookup fun key ↦ ?_
  by_cases hkey : key = id
  · rw [hkey, Finmap.lookup_erase, Finmap.lookup_eq_none.mpr hmem]
  · rw [Finmap.lookup_erase_ne hkey]

/-- A leaf removes the object, and says whether it has had it. -/
theorem remove_leaf : remove id (leaf left top right bottom object) =
    (leaf left top right bottom (object.erase id), decide (id ∈ object)) := by
  rw [leaf, remove]
  by_cases hmem : id ∈ object
  · rw [if_pos hmem, decide_eq_true hmem]
    rfl
  · rw [if_neg hmem, decide_eq_false hmem, leaf, erase_eq_self hmem]

/-- A query of a leaf whose objects are within its bounds appends exactly the objects inside the rectangle,
each once: the early return misses none. -/
theorem query_leaf {result : List κ} (horder : (order object.keys).Nodup ∧ ∀ key, key ∈ order object.keys ↔
      key ∈ object.keys)
    (hbounds : ∀ key point, object.lookup key = some point →
      (nodeLeft ≤ point.x ∧ point.x ≤ nodeRight) ∧ nodeTop ≤ point.y ∧ point.y ≤ nodeBottom) :
    ∃ found, query order id left top right bottom (leaf nodeLeft nodeTop nodeRight nodeBottom object) result =
        some (result ++ found) ∧ found.Nodup ∧
      ∀ key, key ∈ found ↔ key ≠ id ∧ ∃ point, object.lookup key = some point ∧
        (left < point.x ∧ point.x < right) ∧ top < point.y ∧ point.y < bottom := by
  rw [leaf, query]
  by_cases hout : left > nodeRight ∨ right < nodeLeft ∨ top > nodeBottom ∨ bottom < nodeTop
  · rw [if_pos hout]
    refine ⟨[], by rw [List.append_nil], List.nodup_nil, fun key ↦ ?_⟩
    refine iff_of_false List.not_mem_nil ?_
    rintro ⟨-, point, hpoint, ⟨hleft, hright⟩, htop, hbottom⟩
    obtain ⟨⟨hleft', hright'⟩, htop', hbottom'⟩ := hbounds key point hpoint
    omega
  · rw [if_neg hout, if_pos List.isEmpty_nil, Option.map_some]
    refine ⟨_, rfl, horder.1.filter _, fun key ↦ ?_⟩
    rw [List.mem_filter, horder.2, Finmap.mem_keys]
    constructor
    · rintro ⟨-, hinside⟩
      cases hpoint : object.lookup key with
      | none =>
        rw [hpoint] at hinside
        exact nomatch hinside
      | some point =>
        rw [hpoint] at hinside
        obtain ⟨hne, hleft, hright, htop, hbottom⟩ := of_decide_eq_true hinside
        exact ⟨hne, point, rfl, ⟨hleft, hright⟩, htop, hbottom⟩
    · rintro ⟨hne, point, hpoint, ⟨hleft, hright⟩, htop, hbottom⟩
      refine ⟨Finmap.mem_of_lookup_eq_some hpoint, ?_⟩
      rw [hpoint]
      exact decide_eq_true ⟨hne, hleft, hright, htop, hbottom⟩

end Leaf

/-! ### The tree of a map -/

/-- The tree of a map as a node. -/
def ofQuadtree (tree : Quadtree) : Node ℕ := leaf tree.left tree.top tree.right tree.bottom tree.object

theorem insert_ofQuadtree (length : Finset ℕ → ℕ) (tree : Quadtree) (id : ℕ) (x y : ℤ) :
    (ofQuadtree tree).insert length id x y = match tree.insert length id x y with
      | .outside => .outside
      | .inserted next => .returned (ofQuadtree next) (ofQuadtree next)
      | .raised next => .raised (ofQuadtree next) := by
  by_cases hout : x < tree.left ∨ x > tree.right ∨ y < tree.top ∨ y > tree.bottom
  · rw [ofQuadtree, leaf, insert, if_pos hout, Quadtree.insert, if_pos hout]
  · rw [ofQuadtree, insert_leaf (by omega), Quadtree.insert, if_neg hout]
    by_cases hlength : length (tree.store id x y).object.keys < 2
    · rw [if_neg (Nat.not_le_of_lt hlength)]
      exact if_pos hlength
    · rw [if_pos (Nat.le_of_not_lt hlength)]
      exact if_neg hlength

theorem remove_ofQuadtree (tree : Quadtree) (id : ℕ) :
    ((ofQuadtree tree).remove id).1 = ofQuadtree (tree.remove id) := by
  rw [ofQuadtree, remove_leaf]
  rfl

theorem query_ofQuadtree (order : Finset ℕ → List ℕ) (tree : Quadtree) (id : ℕ) (left top right bottom : ℤ)
    (result : List ℕ) :
    (ofQuadtree tree).query order id left top right bottom result =
      some (result ++ tree.query id left top right bottom (order tree.object.keys)) := by
  rw [ofQuadtree, leaf, query, Quadtree.query]
  by_cases hout : left > tree.right ∨ right < tree.left ∨ top > tree.bottom ∨ bottom < tree.top
  · rw [if_pos hout, if_pos hout, List.append_nil]
  · rw [if_neg hout, if_neg hout, if_pos List.isEmpty_nil]
    rfl

/-! ### Runs -/

/-- A call of `insert`, with the length that the language gives to the tables at that time, or of `remove`. -/
inductive TreeCall
  | insert (id x y : ℤ) (length : Finset ℤ → ℕ)
  | remove (id : ℤ)

/-- The length operator: a border of the table, 0 or a key that no key follows. -/
def IsLength (length : Finset ℤ → ℕ) : Prop :=
  ∀ keys, (length keys = 0 ∨ (length keys : ℤ) ∈ keys) ∧ (length keys : ℤ) + 1 ∉ keys

/-- The calls of a run: points within the rectangle, and lengths of the language. -/
def TreeCall.Valid (left top right bottom : ℤ) : TreeCall → Prop
  | .insert _ x y length => ((left ≤ x ∧ x ≤ right) ∧ top ≤ y ∧ y ≤ bottom) ∧ IsLength length
  | .remove _ => True

/-- The tree that a call leaves. -/
def leaves (node : Node ℤ) : TreeCall → Node ℤ
  | .insert id x y length => match node.insert length id x y with
    | .outside => node
    | .returned node _ => node
    | .raised node => node
  | .remove id => (node.remove id).1

/-- The tree after some calls. -/
def after (node : Node ℤ) (calls : List TreeCall) : Node ℤ := calls.foldl leaves node

/-- What a call does to an index of points. -/
def index (points : Objects ℤ) : TreeCall → Objects ℤ
  | .insert id x y _ => points.insert id ⟨x, y⟩
  | .remove id => points.erase id

/-- The points of an index after some calls. -/
def points (calls : List TreeCall) : Objects ℤ := calls.foldl index ∅

/-- A node stores an object at a point. -/
def Stores (id x y : ℤ) : Node ℤ → Prop
  | .mk _ _ _ _ object _ => ∃ objects, object = some objects ∧ objects.lookup id = some ⟨x, y⟩

/-- A call returns what it does with an index of points: an insertion the node that stores the object, without
an error, and a removal whether the object was there. -/
def Answers (node : Node ℤ) (points : Objects ℤ) : TreeCall → Prop
  | .insert id x y length => ∃ next taker, node.insert length id x y = .returned next taker ∧ taker.Stores id x y
  | .remove id => (node.remove id).2 = decide (id ∈ points)

/-- Every query appends exactly the other objects strictly inside the rectangle, each once. -/
def QueriesExactly (node : Node ℤ) (points : Objects ℤ) : Prop :=
  ∀ (order : Finset ℤ → List ℤ) (id left top right bottom : ℤ) (result : List ℤ),
    (∀ keys, (order keys).Nodup ∧ ∀ key, key ∈ order keys ↔ key ∈ keys) →
    ∃ found, node.query order id left top right bottom result = some (result ++ found) ∧ found.Nodup ∧
      ∀ key, key ∈ found ↔ key ≠ id ∧ ∃ point, points.lookup key = some point ∧
        (left < point.x ∧ point.x < right) ∧ top < point.y ∧ point.y < bottom

/-- Along a run from an empty tree, every call returns what it does with an index of points, and every query is
exact at any time. -/
def IsPointIndex (left top right bottom : ℤ) (calls : List TreeCall) : Prop :=
  (∀ done call rest, calls = done ++ call :: rest →
    ((new left top right bottom).after done).Answers (points done) call) ∧
  ∀ done rest, calls = done ++ rest → ((new left top right bottom).after done).QueriesExactly (points done)

section Runs

variable {left top right bottom : ℤ} {calls : List TreeCall}

/-- A call of a run takes a leaf to a leaf with the objects of the index. -/
theorem leaves_leaf {objects : Objects ℤ} {call : TreeCall} (hvalid : call.Valid left top right bottom) :
    (leaf left top right bottom objects).leaves call = leaf left top right bottom (index objects call) := by
  cases call with
  | insert id x y length =>
    rw [leaves, insert_leaf hvalid.1]
    by_cases hlength : length (objects.insert id ⟨x, y⟩).keys < 2
    · rw [if_pos hlength]
      rfl
    · rw [if_neg hlength]
      rfl
  | remove id =>
    rw [leaves, remove_leaf]
    rfl

/-- After any calls the tree is a leaf with the objects of the index, and they are within its bounds. -/
theorem after_eq_leaf (hvalid : ∀ call ∈ calls, call.Valid left top right bottom) :
    (new left top right bottom).after calls = leaf left top right bottom (points calls) ∧
      ∀ key point, (points calls).lookup key = some point →
        (left ≤ point.x ∧ point.x ≤ right) ∧ top ≤ point.y ∧ point.y ≤ bottom := by
  induction calls using List.reverseRecOn with
  | nil => exact ⟨rfl, fun key point hpoint ↦ nomatch hpoint⟩
  | append_singleton calls call ih =>
    obtain ⟨hleaf, hbounds⟩ := ih fun other hother ↦ hvalid other (List.mem_append_left _ hother)
    have hcall := hvalid call (List.mem_append_right calls (List.mem_singleton_self call))
    have hafter : (new left top right bottom).after (calls ++ [call]) =
        ((new left top right bottom).after calls).leaves call := List.foldl_concat ..
    have hpoints : points (calls ++ [call]) = index (points calls) call := List.foldl_concat ..
    rw [hafter, hpoints, hleaf, leaves_leaf hcall]
    refine ⟨rfl, fun key point hpoint ↦ ?_⟩
    cases call with
    | insert id x y length =>
      by_cases hkey : key = id
      · rw [hkey, index, Finmap.lookup_insert] at hpoint
        obtain rfl := Option.some.inj hpoint
        exact hcall.1
      · rw [index, Finmap.lookup_insert_of_ne _ hkey] at hpoint
        exact hbounds key point hpoint
    | remove id =>
      by_cases hkey : key = id
      · rw [hkey, index, Finmap.lookup_erase] at hpoint
        exact nomatch hpoint
      · rw [index, Finmap.lookup_erase_ne hkey] at hpoint
        exact hbounds key point hpoint

/-- The tree is an index of points along a run exactly when the length of its table is less than two at every
insertion. -/
theorem point_index_iff (hvalid : ∀ call ∈ calls, call.Valid left top right bottom) :
    IsPointIndex left top right bottom calls ↔
      ∀ done id x y length rest, calls = done ++ .insert id x y length :: rest →
        length ((points done).insert id ⟨x, y⟩).keys < 2 := by
  have hearlier : ∀ {done rest}, calls = done ++ rest → ∀ call ∈ done, call.Valid left top right bottom :=
    fun hcalls call hcall ↦ hvalid call (hcalls ▸ List.mem_append_left _ hcall)
  have hnext : ∀ {done call rest}, calls = done ++ call :: rest → call.Valid left top right bottom :=
    fun hcalls ↦ hvalid _ (hcalls ▸ List.mem_append_right _ (List.mem_cons_self ..))
  constructor
  · rintro ⟨hanswers, -⟩ done id x y length rest hcalls
    obtain ⟨next, taker, hinsert, -⟩ := hanswers done _ rest hcalls
    rw [(after_eq_leaf (hearlier hcalls)).1, insert_leaf (hnext hcalls).1] at hinsert
    by_contra hlength
    rw [if_neg hlength] at hinsert
    exact nomatch hinsert
  · intro hlength
    refine ⟨fun done call rest hcalls ↦ ?_, fun done rest hcalls ↦ ?_⟩
    · rw [(after_eq_leaf (hearlier hcalls)).1]
      cases call with
      | insert id x y length =>
        have hinsert : (leaf left top right bottom (points done)).insert length id x y = _ :=
          insert_leaf (hnext hcalls).1
        rw [if_pos (hlength done id x y length rest hcalls)] at hinsert
        exact ⟨_, _, hinsert, _, rfl, Finmap.lookup_insert _⟩
      | remove id => rw [Answers, remove_leaf]
    · obtain ⟨hleaf, hbounds⟩ := after_eq_leaf (hearlier hcalls)
      rw [hleaf]
      exact fun order id left' top' right' bottom' result horder ↦ query_leaf (horder _) hbounds

end Runs

/-! ### The length of a table -/

/-- With the keys 1 and 2 a table has a length of at least two. -/
theorem two_le_length {length : Finset ℤ → ℕ} (hlength : IsLength length) {keys : Finset ℤ} (hone : 1 ∈ keys)
    (htwo : 2 ∈ keys) : 2 ≤ length keys := by
  obtain ⟨-, hborder⟩ := hlength keys
  by_contra hlt
  rcases (by omega : length keys = 0 ∨ length keys = 1) with hzero | hsingle
  · rw [hzero] at hborder
    exact hborder hone
  · rw [hsingle] at hborder
    exact hborder htwo

theorem exists_border (keys : Finset ℤ) : ∃ border : ℕ, (border : ℤ) + 1 ∉ keys := by
  refine ⟨keys.sup Int.toNat, fun hmem ↦ ?_⟩
  have hle : ((keys.sup Int.toNat : ℕ) + 1 : ℤ).toNat ≤ keys.sup Int.toNat := Finset.le_sup hmem
  omega

/-- The first border of a table, which a search from 1 on finds. -/
def firstBorder (keys : Finset ℤ) : ℕ := Nat.find (exists_border keys)

theorem isLength_firstBorder : IsLength firstBorder := by
  intro keys
  refine ⟨?_, Nat.find_spec (exists_border keys)⟩
  rcases Nat.eq_zero_or_pos (firstBorder keys) with hzero | hpos
  · exact .inl hzero
  · have hbefore := Nat.find_min (exists_border keys) (Nat.sub_lt hpos Nat.one_pos)
    rw [not_not] at hbefore
    have hcast : ((firstBorder keys - 1 : ℕ) : ℤ) + 1 = firstBorder keys := by omega
    exact .inr (hcast ▸ hbefore)

theorem firstBorder_lt_two {keys : Finset ℤ} (htwo : 2 ∉ keys) : firstBorder keys < 2 :=
  Nat.lt_succ_of_le (Nat.find_min' (exists_border keys) htwo)

/-- Two objects at one point, with handles for ids, and a removal. -/
theorem point_index_iff_handles : IsPointIndex 0 0 100 100
    [.insert 16777226 10 10 firstBorder, .insert 16777227 10 10 firstBorder, .remove 16777226] := by
  have hvalid : ∀ call ∈ [TreeCall.insert 16777226 10 10 firstBorder, .insert 16777227 10 10 firstBorder,
      .remove 16777226], call.Valid 0 0 100 100 := by
    intro call hcall
    simp only [List.mem_cons, List.not_mem_nil, or_false] at hcall
    rcases hcall with rfl | rfl | rfl
    · exact ⟨by decide, isLength_firstBorder⟩
    · exact ⟨by decide, isLength_firstBorder⟩
    · trivial
  refine (point_index_iff hvalid).mpr fun done id x y length rest hcalls ↦ ?_
  rcases done with _ | ⟨first, _ | ⟨second, _ | ⟨third, done⟩⟩⟩
  · simp only [List.nil_append, List.cons.injEq, TreeCall.insert.injEq] at hcalls
    obtain ⟨⟨rfl, rfl, rfl, rfl⟩, -⟩ := hcalls
    exact firstBorder_lt_two (by decide)
  · simp only [List.cons_append, List.nil_append, List.cons.injEq, TreeCall.insert.injEq] at hcalls
    obtain ⟨rfl, ⟨rfl, rfl, rfl, rfl⟩, -⟩ := hcalls
    exact firstBorder_lt_two (by decide)
  · simp only [List.cons_append, List.nil_append, List.cons.injEq, reduceCtorEq, false_and, and_false] at hcalls
  · simp only [List.cons_append, List.cons.injEq, List.nil_eq, List.append_eq_nil_iff, reduceCtorEq, and_false]
      at hcalls

/-- With the ids 1 and 2, the second insertion raises, and there is no index of points. -/
theorem ids_one_and_two : ∃ calls : List TreeCall, (∀ call ∈ calls, call.Valid 0 0 100 100) ∧
    calls = [.insert 1 10 10 firstBorder, .insert 2 20 20 firstBorder] ∧
    (∃ node, ((new 0 0 100 100).after (calls.take 1)).insert firstBorder 2 20 20 = .raised node) ∧
    ¬ IsPointIndex 0 0 100 100 calls := by
  have hvalid : ∀ call ∈ [TreeCall.insert 1 10 10 firstBorder], call.Valid 0 0 100 100 := by
    intro call hcall
    obtain rfl := List.mem_singleton.mp hcall
    exact ⟨by decide, isLength_firstBorder⟩
  have hraised : ((new 0 0 100 100).after [.insert 1 10 10 firstBorder]).insert firstBorder 2 20 20 =
      .raised (leaf 0 0 100 100 ((points [.insert 1 10 10 firstBorder]).insert 2 ⟨20, 20⟩)) := by
    rw [(after_eq_leaf hvalid).1, insert_leaf (by decide)]
    exact if_neg (Nat.not_lt_of_le (two_le_length isLength_firstBorder (by decide) (by decide)))
  refine ⟨_, fun call hcall ↦ ?_, rfl, ⟨_, hraised⟩, fun hindex ↦ ?_⟩
  · simp only [List.mem_cons, List.not_mem_nil, or_false] at hcall
    rcases hcall with rfl | rfl
    · exact ⟨by decide, isLength_firstBorder⟩
    · exact ⟨by decide, isLength_firstBorder⟩
  · obtain ⟨next, taker, hinsert, -⟩ := hindex.1 [.insert 1 10 10 firstBorder] _ [] rfl
    rw [hraised] at hinsert
    exact nomatch hinsert

end Node

end SvrDemo.Map

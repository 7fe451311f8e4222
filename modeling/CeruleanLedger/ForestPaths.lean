import CeruleanLedger.ForestFold

/-!
What the recursions over child lists compute. Where every node has at most one parent, the
subtrees of different children are disjoint, so that the descendants of a node are counted child
by child.
-/

namespace CeruleanLedger.ForestPaths

open ForestFold

variable {Node Value : Type} {children : Node → List Node}

theorem fold_rule (Fits : Node → Value → Prop) (combine : Node → List Value → Value)
    (combines : ∀ node values, List.Forall₂ Fits (children node) values →
      Fits node (combine node values))
    (depth : Nat) (node : Node) (value : Value)
    (folded : fold children combine depth node = some value) : Fits node value := by
  induction depth generalizing node value with
  | zero => cases folded
  | succ depth ih =>
    obtain ⟨values, collected, combined⟩ := Option.map_eq_some_iff.mp folded
    subst combined
    apply combines
    exact ((map_m_some_iff _ _ _).mp collected).imp ih

section Pairing

variable {Item : Type} {Related : Item → Value → Prop} {items : List Item} {values : List Value}

theorem forall₂_mem_left (paired : List.Forall₂ Related items values) {item : Item}
    (member : item ∈ items) : ∃ value ∈ values, Related item value := by
  induction paired with
  | nil => cases member
  | cons related _ ih =>
    rcases List.mem_cons.mp member with same | later
    · exact ⟨_, List.mem_cons_self, same ▸ related⟩
    · obtain ⟨value, listed, found⟩ := ih later
      exact ⟨value, List.mem_cons_of_mem _ listed, found⟩

theorem forall₂_imp_mem {Other : Item → Value → Prop}
    (paired : List.Forall₂ Related items values)
    (implies : ∀ item ∈ items, ∀ value, Related item value → Other item value) :
    List.Forall₂ Other items values := by
  induction paired with
  | nil => exact .nil
  | cons related _ ih =>
    obtain ⟨head, tail⟩ := List.forall_mem_cons.mp implies
    exact .cons (head _ related) (ih tail)

end Pairing

section Subtrees

def IsChild (children : Node → List Node) (node child : Node) : Prop := child ∈ children node

def subtree (children : Node → List Node) (node : Node) : Set Node :=
  {below | Relation.ReflTransGen (IsChild children) node below}

def descendants (children : Node → List Node) (node : Node) : Set Node :=
  {below | Relation.TransGen (IsChild children) node below}

theorem mem_subtree_iff {node below : Node} :
    below ∈ subtree children node ↔ below = node ∨ below ∈ descendants children node :=
  Relation.reflTransGen_iff_eq_or_transGen

theorem mem_descendants_iff {node below : Node} :
    below ∈ descendants children node ↔
      ∃ child ∈ children node, below ∈ subtree children child :=
  Relation.TransGen.head'_iff

theorem mem_subtree_cases {node below : Node} :
    below ∈ subtree children node ↔
      below = node ∨ ∃ child ∈ children node, below ∈ subtree children child := by
  rw [mem_subtree_iff, mem_descendants_iff]

variable {rank : Node → Nat}

theorem rank_le_of_mem_subtree (ranked : Ranked children rank) {node below : Node}
    (inside : below ∈ subtree children node) : rank below ≤ rank node := by
  induction inside with
  | refl => exact Nat.le_refl _
  | tail _ child ih => exact (Nat.le_of_lt (ranked _ _ child)).trans ih

theorem not_mem_descendants (ranked : Ranked children rank) (node : Node) :
    node ∉ descendants children node := by
  intro below
  obtain ⟨child, member, inside⟩ := mem_descendants_iff.mp below
  have falls := ranked node child member
  have stays := rank_le_of_mem_subtree ranked inside
  omega

theorem encard_subtree (ranked : Ranked children rank) (node : Node) :
    (subtree children node).encard = (descendants children node).encard + 1 := by
  have split : subtree children node = insert node (descendants children node) := by
    ext below
    exact mem_subtree_iff
  rw [split, Set.encard_insert_of_notMem (not_mem_descendants ranked node)]

structure Forest (children : Node → List Node) : Prop where
  distinct : ∀ node, (children node).Nodup
  parent : ∀ {node node' child}, child ∈ children node → child ∈ children node' → node = node'

/-- A child lies in no sibling's subtree: its parent would lie there too. -/
theorem sibling_outside (ranked : Ranked children rank) (forest : Forest children)
    {node left right : Node} (first : left ∈ children node) (second : right ∈ children node)
    (apart : left ≠ right) : right ∉ subtree children left := by
  intro inside
  rcases Relation.ReflTransGen.cases_tail inside with same | ⟨parent, above, child⟩
  · exact apart same.symm
  · have same : parent = node := forest.parent child second
    subst same
    have falls := ranked parent left first
    have stays := rank_le_of_mem_subtree ranked above
    omega

theorem subtrees_disjoint (ranked : Ranked children rank) (forest : Forest children)
    {node left right : Node} (first : left ∈ children node) (second : right ∈ children node)
    (apart : left ≠ right) : Disjoint (subtree children left) (subtree children right) := by
  rw [Set.disjoint_left]
  intro below fromLeft fromRight
  -- The ancestors of one node are ordered, since each has a single parent.
  have unique : Relator.RightUnique (Function.swap (IsChild children)) := by
    intro child parent parent' here there
    exact forest.parent here there
  have ordered := Relation.ReflTransGen.total_of_right_unique unique
    (Relation.reflTransGen_swap.mpr fromLeft) (Relation.reflTransGen_swap.mpr fromRight)
  rcases ordered with leftBelow | rightBelow
  · exact sibling_outside ranked forest second first apart.symm
      (Relation.reflTransGen_swap.mp leftBelow)
  · exact sibling_outside ranked forest first second apart
      (Relation.reflTransGen_swap.mp rightBelow)

theorem encard_listed (sets : Node → Set Node) (nodes : List Node)
    (apart : nodes.Pairwise fun left right => Disjoint (sets left) (sets right)) :
    {item | ∃ node ∈ nodes, item ∈ sets node}.encard =
      (nodes.map fun node => (sets node).encard).sum := by
  induction nodes with
  | nil => simp
  | cons node rest ih =>
    obtain ⟨head, tail⟩ := List.pairwise_cons.mp apart
    have split : {item | ∃ other ∈ node :: rest, item ∈ sets other} =
        sets node ∪ {item | ∃ other ∈ rest, item ∈ sets other} := by
      ext item
      simp
    have disjoint : Disjoint (sets node) {item | ∃ other ∈ rest, item ∈ sets other} := by
      rw [Set.disjoint_left]
      rintro item inside ⟨other, member, there⟩
      exact Set.disjoint_left.mp (head other member) inside there
    rw [split, Set.encard_union_eq disjoint, ih tail, List.map_cons, List.sum_cons]

theorem encard_descendants (ranked : Ranked children rank) (forest : Forest children)
    (node : Node) :
    (descendants children node).encard =
      ((children node).map fun child => (descendants children child).encard + 1).sum := by
  have apart : (children node).Pairwise fun left right =>
      Disjoint (subtree children left) (subtree children right) :=
    (forest.distinct node).pairwise_of_forall_ne fun _ first _ second =>
      subtrees_disjoint ranked forest first second
  have split : descendants children node =
      {below | ∃ child ∈ children node, below ∈ subtree children child} := by
    ext below
    exact mem_descendants_iff
  rw [split, encard_listed _ _ apart]
  simp only [encard_subtree ranked]

end Subtrees

variable {score : Node → Option Value} {le : Value × Node → Value × Node → Bool}

def Best (children : Node → List Node) (score : Node → Option Value)
    (le : Value × Node → Value × Node → Bool) (node next : Node) : Prop :=
  next ∈ children node ∧ ∃ value, score next = some value ∧
    ∀ other ∈ children node, ∃ value', score other = some value' ∧
      le (value', other) (value, next) = true

theorem mem_scored {nodes : List Node} {pairs : List (Value × Node)}
    (collected : nodes.mapM (scoredNode score) = some pairs) {node : Node}
    (member : node ∈ nodes) : ∃ value, score node = some value ∧ (value, node) ∈ pairs := by
  have paired := (map_m_some_iff _ _ _).mp collected
  clear collected
  induction paired with
  | nil => cases member
  | @cons first pair _ _ found _ ih =>
    rcases List.mem_cons.mp member with same | later
    · subst same
      obtain ⟨value, scored, same⟩ := Option.map_eq_some_iff.mp found
      exact ⟨value, scored, same ▸ List.mem_cons_self⟩
    · obtain ⟨value, scored, listed⟩ := ih later
      exact ⟨value, scored, List.mem_cons_of_mem _ listed⟩

theorem pick_none {nodes : List Node} (picked : pick score le nodes = some none) :
    nodes = [] := by
  obtain ⟨pairs, collected, chosen⟩ := Option.map_eq_some_iff.mp picked
  have empty := (max_by_eq_none_iff pairs).mp (Option.map_eq_none_iff.mp chosen)
  subst empty
  exact List.forall₂_nil_right_iff.mp ((map_m_some_iff _ _ _).mp collected)

theorem pick_best (linear : Linear le) {node next : Node}
    (picked : pick score le (children node) = some (some next)) :
    Best children score le node next := by
  obtain ⟨pairs, collected, chosen⟩ := Option.map_eq_some_iff.mp picked
  obtain ⟨⟨value, found⟩, greatest, same⟩ := Option.map_eq_some_iff.mp chosen
  obtain ⟨member, above⟩ := (max_by_eq_some_iff linear _ _).mp greatest
  obtain ⟨source, listed, scored⟩ := map_m_source _ collected member
  obtain ⟨own, computed, pair⟩ := Option.map_eq_some_iff.mp scored
  cases pair
  subst same
  refine ⟨listed, value, computed, ?_⟩
  intro other sibling
  obtain ⟨value', scored', inside⟩ := mem_scored collected sibling
  exact ⟨value', scored', above _ inside⟩

theorem descend_path (linear : Linear le) (depth : Nat) (node : Node) (path : List Node)
    (walked : descend children score le depth node = some path) :
    path.head? = some node ∧ path.IsChain (Best children score le) ∧
      ∀ last, path.getLast? = some last → children last = [] := by
  induction depth generalizing node path with
  | zero => cases walked
  | succ depth ih =>
    rw [descend] at walked
    split at walked
    · cases walked
    · rename_i leaf
      cases walked
      refine ⟨rfl, .singleton node, ?_⟩
      intro last same
      cases same
      exact pick_none leaf
    · rename_i next picked
      obtain ⟨rest, followed, same⟩ := Option.map_eq_some_iff.mp walked
      subst same
      obtain ⟨head, chain, leaf⟩ := ih next rest followed
      cases rest with
      | nil => cases head
      | cons first more =>
        cases head
        refine ⟨rfl, .cons_cons (pick_best linear picked) chain, ?_⟩
        intro last same
        exact leaf last (by rwa [List.getLast?_cons_cons] at same)

/-- The rank falls along a path of children, so that no node is met twice. -/
theorem path_nodup {rank : Node → Nat} (ranked : Ranked children rank) {path : List Node}
    (chain : path.IsChain (IsChild children)) : path.Nodup := by
  have falls : path.IsChain fun node next => rank next < rank node :=
    chain.imp fun node next => ranked node next
  have transitive : IsTrans Node fun node next => rank next < rank node :=
    ⟨fun _ _ _ first second => Nat.lt_trans second first⟩
  apply List.Pairwise.imp _ (List.isChain_iff_pairwise.mp falls)
  intro node next lower same
  subst same
  exact Nat.lt_irrefl _ lower

end CeruleanLedger.ForestPaths

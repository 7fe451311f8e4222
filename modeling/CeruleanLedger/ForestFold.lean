import Mathlib

/-!
Recursion over a child relation that is given only as lists of children. A fold combines the
values of a node's children; a descent follows the best child of each node to a leaf. Both take
a bound on the depth and give `none` when it is too small, which a rank that falls from parent
to child rules out.
-/

namespace CeruleanLedger.ForestFold

section Maximum

variable {Item : Type*}

def better (le : Item → Item → Bool) (best item : Item) : Item :=
  if le best item then item else best

def maxBy (le : Item → Item → Bool) : List Item → Option Item
  | [] => none
  | first :: rest => some (rest.foldl (better le) first)

structure Linear (le : Item → Item → Bool) : Prop where
  total : ∀ left right, le left right = true ∨ le right left = true
  trans : ∀ left middle right, le left middle = true → le middle right = true →
    le left right = true
  antisymm : ∀ left right, le left right = true → le right left = true → left = right

variable {le : Item → Item → Bool}

theorem running_best_mem (rest : List Item) (first : Item) :
    rest.foldl (better le) first ∈ first :: rest := by
  induction rest generalizing first with
  | nil => exact List.mem_singleton_self _
  | cons second rest ih =>
    rw [List.foldl_cons]
    unfold better
    split
    · exact List.mem_cons_of_mem _ (ih second)
    · rcases List.mem_cons.mp (ih first) with same | later
      · exact List.mem_cons.mpr (Or.inl same)
      · exact List.mem_cons_of_mem _ (List.mem_cons_of_mem _ later)

section Preorder

-- A key comparison is total and transitive, also where two items share a key.
variable (total : ∀ left right, le left right = true ∨ le right left = true)
variable (trans : ∀ left middle right, le left middle = true → le middle right = true →
  le left right = true)

include total

theorem le_refl_of_total (item : Item) : le item item = true := by
  rcases total item item with same | same <;> exact same

theorem le_better (best item : Item) :
    le best (better le best item) = true ∧ le item (better le best item) = true := by
  unfold better
  split
  · rename_i below
    exact ⟨below, le_refl_of_total total item⟩
  · rename_i above
    rcases total best item with wrong | right
    · exact absurd wrong above
    · exact ⟨le_refl_of_total total best, right⟩

include trans

theorem le_running_best (rest : List Item) (first : Item) :
    ∀ item ∈ first :: rest, le item (rest.foldl (better le) first) = true := by
  induction rest generalizing first with
  | nil =>
    intro item member
    rw [List.mem_singleton] at member
    subst member
    exact le_refl_of_total total item
  | cons second rest ih =>
    intro item member
    rw [List.foldl_cons]
    -- The running best of the rest is above the better of the first two.
    have chosen := ih (better le first second) _ List.mem_cons_self
    obtain ⟨overFirst, overSecond⟩ := le_better total first second
    rcases List.mem_cons.mp member with same | later
    · subst same
      exact trans _ _ _ overFirst chosen
    · rcases List.mem_cons.mp later with same | last
      · subst same
        exact trans _ _ _ overSecond chosen
      · exact ih _ item (List.mem_cons_of_mem _ last)

theorem le_max_by {items : List Item} {best : Item} (chosen : maxBy le items = some best) :
    ∀ item ∈ items, le item best = true := by
  cases items with
  | nil => cases chosen
  | cons first rest =>
    cases chosen
    exact le_running_best total trans rest first

end Preorder

theorem max_by_eq_some_iff (linear : Linear le) (items : List Item) (best : Item) :
    maxBy le items = some best ↔
      best ∈ items ∧ ∀ item ∈ items, le item best = true := by
  cases items with
  | nil => simp [maxBy]
  | cons first rest =>
    have member : rest.foldl (better le) first ∈ first :: rest := running_best_mem rest first
    have upper := le_running_best linear.total linear.trans rest first
    rw [maxBy, Option.some.injEq]
    constructor
    · intro same
      subst same
      exact ⟨member, upper⟩
    · rintro ⟨listed, above⟩
      exact linear.antisymm _ _ (above _ member) (upper best listed)

theorem max_by_eq_none_iff (items : List Item) : maxBy le items = none ↔ items = [] := by
  cases items with
  | nil => simp [maxBy]
  | cons first rest => simp [maxBy]

theorem max_by_mem {items : List Item} {best : Item} (chosen : maxBy le items = some best) :
    best ∈ items := by
  cases items with
  | nil => cases chosen
  | cons first rest =>
    cases chosen
    exact running_best_mem rest first

theorem max_by_perm (linear : Linear le) {items items' : List Item} (same : items.Perm items') :
    maxBy le items = maxBy le items' := by
  cases chosen : maxBy le items with
  | none =>
    have empty := (max_by_eq_none_iff items).mp chosen
    subst empty
    rw [List.nil_perm.mp same]
    rfl
  | some best =>
    -- Being the greatest member does not mention positions.
    have greatest := (max_by_eq_some_iff linear items best).mp chosen
    symm
    apply (max_by_eq_some_iff linear items' best).mpr
    constructor
    · exact same.mem_iff.mp greatest.1
    · intro item member
      exact greatest.2 item (same.mem_iff.mpr member)

end Maximum

section Partial

variable {Item Value : Type}

theorem map_m_some_iff (compute : Item → Option Value) (items : List Item)
    (values : List Value) :
    items.mapM compute = some values ↔
      List.Forall₂ (fun item value => compute item = some value) items values := by
  induction items generalizing values with
  | nil => cases values <;> simp
  | cons item rest ih =>
    rw [List.mapM_cons]
    cases found : compute item with
    | none => cases values <;> simp [found]
    | some value =>
      cases values with
      | nil => cases rest.mapM compute <;> simp
      | cons first more =>
        simp only [List.forall₂_cons, ← ih, found]
        cases rest.mapM compute <;> simp

theorem map_m_returns (compute : Item → Option Value) (items : List Item)
    (returns : ∀ item ∈ items, ∃ value, compute item = some value) :
    ∃ values, items.mapM compute = some values := by
  induction items with
  | nil => exact ⟨[], rfl⟩
  | cons item rest ih =>
    obtain ⟨head, tail⟩ := List.forall_mem_cons.mp returns
    obtain ⟨value, found⟩ := head
    obtain ⟨values, collected⟩ := ih tail
    exact ⟨value :: values, by rw [List.mapM_cons, found, collected]; rfl⟩

theorem map_m_source (compute : Item → Option Value) {items : List Item} {values : List Value}
    (collected : items.mapM compute = some values) {value : Value} (member : value ∈ values) :
    ∃ item ∈ items, compute item = some value := by
  have paired := (map_m_some_iff compute items values).mp collected
  clear collected
  induction paired with
  | nil => cases member
  | cons found _ ih =>
    rcases List.mem_cons.mp member with same | later
    · subst same
      exact ⟨_, List.mem_cons_self, found⟩
    · obtain ⟨item, listed, computed⟩ := ih later
      exact ⟨item, List.mem_cons_of_mem _ listed, computed⟩

theorem map_m_perm (compute : Item → Option Value) {items items' : List Item}
    (same : items.Perm items') {values : List Value}
    (collected : items.mapM compute = some values) :
    ∃ values', items'.mapM compute = some values' ∧ values'.Perm values := by
  have paired := (map_m_some_iff compute items values).mp collected
  obtain ⟨values', moved, reordered⟩ := List.perm_comp_forall₂ same.symm paired
  exact ⟨values', (map_m_some_iff compute items' values').mpr moved, reordered⟩

theorem map_m_combine_perm {Result : Type} (compute : Item → Option Value)
    (combine : List Value → Result)
    (unordered : ∀ values values', values.Perm values' → combine values = combine values')
    {items items' : List Item} (same : items.Perm items') :
    (items.mapM compute).map combine = (items'.mapM compute).map combine := by
  cases collected : items.mapM compute with
  | some values =>
    obtain ⟨values', moved, reordered⟩ := map_m_perm compute same collected
    rw [moved, Option.map_some, Option.map_some, unordered _ _ reordered]
  | none =>
    cases collected' : items'.mapM compute with
    | none => rfl
    | some values =>
      obtain ⟨values', moved, _⟩ := map_m_perm compute same.symm collected'
      rw [moved] at collected
      cases collected

end Partial

variable {Node Value : Type}

/-- Combines the children's values; `none` beyond the depth bound. -/
def fold (children : Node → List Node) (combine : Node → List Value → Value) :
    Nat → Node → Option Value
  | 0, _ => none
  | depth + 1, node =>
    ((children node).mapM (fold children combine depth)).map (combine node)

def scoredNode (score : Node → Option Value) (node : Node) : Option (Value × Node) :=
  (score node).map fun value => (value, node)

def pick (score : Node → Option Value) (le : Value × Node → Value × Node → Bool)
    (nodes : List Node) : Option (Option Node) :=
  (nodes.mapM (scoredNode score)).map fun scored => (maxBy le scored).map Prod.snd

def descend (children : Node → List Node) (score : Node → Option Value)
    (le : Value × Node → Value × Node → Bool) : Nat → Node → Option (List Node)
  | 0, _ => none
  | depth + 1, node =>
    match pick score le (children node) with
    | none => none
    | some none => some [node]
    | some (some next) => (descend children score le depth next).map (node :: ·)

def Ranked (children : Node → List Node) (rank : Node → Nat) : Prop :=
  ∀ node, ∀ child ∈ children node, rank child < rank node

section Depth

variable {children : Node → List Node} {rank : Node → Nat}

theorem fold_returns (ranked : Ranked children rank) (combine : Node → List Value → Value)
    (depth : Nat) (node : Node) (enough : rank node < depth) :
    ∃ value, fold children combine depth node = some value := by
  induction depth generalizing node with
  | zero => exact absurd enough (Nat.not_lt_zero _)
  | succ depth ih =>
    -- The rank of a child is smaller, so the remaining depth is enough for it.
    have below : ∀ child ∈ children node,
        ∃ value, fold children combine depth child = some value := by
      intro child member
      have falls := ranked node child member
      exact ih child (by omega)
    obtain ⟨values, collected⟩ := map_m_returns _ _ below
    exact ⟨combine node values, by rw [fold, collected]; rfl⟩

theorem pick_returns {score : Node → Option Value} (le : Value × Node → Value × Node → Bool)
    (nodes : List Node) (scored : ∀ node ∈ nodes, ∃ value, score node = some value) :
    pick score le nodes = some none ∨
      ∃ next ∈ nodes, pick score le nodes = some (some next) := by
  obtain ⟨pairs, collected⟩ := map_m_returns (scoredNode score) nodes (by
    intro node member
    obtain ⟨value, found⟩ := scored node member
    exact ⟨(value, node), by rw [scoredNode, found]; rfl⟩)
  rw [pick, collected]
  cases chosen : maxBy le pairs with
  | none =>
    left
    rw [Option.map_some, chosen]
    rfl
  | some best =>
    right
    obtain ⟨node, member, found⟩ := map_m_source (scoredNode score) collected (max_by_mem chosen)
    refine ⟨best.2, ?_, by rw [Option.map_some, chosen]; rfl⟩
    obtain ⟨value, _, pair⟩ := Option.map_eq_some_iff.mp found
    rw [← pair]
    exact member

theorem descend_returns (ranked : Ranked children rank) {score : Node → Option Value}
    (le : Value × Node → Value × Node → Bool)
    (scored : ∀ node, ∃ value, score node = some value) (depth : Nat) (node : Node)
    (enough : rank node < depth) :
    ∃ path, descend children score le depth node = some (node :: path) := by
  induction depth generalizing node with
  | zero => exact absurd enough (Nat.not_lt_zero _)
  | succ depth ih =>
    rw [descend]
    rcases pick_returns le (children node) (fun child _ => scored child) with leaf | inner
    · exact ⟨[], by rw [leaf]⟩
    · obtain ⟨next, member, picked⟩ := inner
      have falls := ranked node next member
      obtain ⟨path, followed⟩ := ih next (by omega)
      exact ⟨next :: path, by rw [picked]; simp only [followed, Option.map_some]⟩

end Depth

variable {children children' : Node → List Node}

/-- The fold reads each node's children as a multiset. -/
theorem fold_perm (reordered : ∀ node, (children node).Perm (children' node))
    (combine : Node → List Value → Value)
    (unordered : ∀ node values values', values.Perm values' →
      combine node values = combine node values') (depth : Nat) :
    fold children combine depth = fold children' combine depth := by
  induction depth with
  | zero => rfl
  | succ depth ih =>
    funext node
    rw [fold, fold, ih]
    exact map_m_combine_perm _ _ (unordered node) (reordered node)

theorem pick_perm (score : Node → Option Value) {le : Value × Node → Value × Node → Bool}
    (linear : Linear le) {nodes nodes' : List Node} (same : nodes.Perm nodes') :
    pick score le nodes = pick score le nodes' := by
  apply map_m_combine_perm _ _ _ same
  intro values values' reordered
  rw [max_by_perm linear reordered]

theorem descend_perm (reordered : ∀ node, (children node).Perm (children' node))
    (score : Node → Option Value) {le : Value × Node → Value × Node → Bool}
    (linear : Linear le) (depth : Nat) :
    descend children score le depth = descend children' score le depth := by
  induction depth with
  | zero => rfl
  | succ depth ih =>
    funext node
    rw [descend, descend, ih, pick_perm score linear (reordered node)]

end CeruleanLedger.ForestFold

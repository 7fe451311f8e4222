import CeruleanLedger.OrderedMap

/-!
A queue that several holders cut into pieces. A piece leaves the queue when it is cut, is held
for a while, and is then written under its key or lost.
-/

namespace CeruleanLedger.CutQueues

open OrderedMap

variable {Item Piece Key : Type*}

structure Journal (Item Piece : Type*) where
  submitted : List Item
  cuts : List Piece
  written : List Piece
  failed : List Piece

namespace Journal

def start : Journal Item Piece := ⟨[], [], [], []⟩

variable (journal : Journal Item Piece)

def submit (item : Item) : Journal Item Piece :=
  { journal with submitted := journal.submitted ++ [item] }

def cut (piece : Piece) : Journal Item Piece := { journal with cuts := journal.cuts ++ [piece] }

def write (piece : Piece) : Journal Item Piece :=
  { journal with written := journal.written ++ [piece] }

def fail (piece : Piece) : Journal Item Piece :=
  { journal with failed := journal.failed ++ [piece] }

end Journal

variable {items : Piece → List Item} {queue : List Item} {cmp : Key → Key → Ordering}
  [Std.TransCmp cmp] [Std.LawfulEqCmp cmp] {keyOf : Piece → Key}

section Accounts

variable {journal : Journal Item Piece} {held : Multiset Piece}

/-- The cut pieces and the queue make up the submissions, no piece is empty, and
each is held, written or lost. -/
structure Accounted (items : Piece → List Item) (journal : Journal Item Piece)
    (queue : List Item) (held : Multiset Piece) : Prop where
  line : journal.submitted = journal.cuts.flatMap items ++ queue
  full : ∀ piece ∈ journal.cuts, items piece ≠ []
  placed : (journal.cuts : Multiset Piece) = held + (journal.written + journal.failed)

theorem Accounted.start : Accounted items (.start : Journal Item Piece) [] 0 :=
  ⟨rfl, List.forall_mem_nil _, rfl⟩

theorem Accounted.submit (accounted : Accounted items journal queue held) (item : Item) :
    Accounted items (journal.submit item) (queue ++ [item]) held := by
  refine ⟨?_, accounted.full, accounted.placed⟩
  simp [Journal.submit, accounted.line]

theorem Accounted.cut {piece : Piece} {rest : List Item}
    (accounted : Accounted items journal (items piece ++ rest) held)
    (nonempty : items piece ≠ []) :
    Accounted items (journal.cut piece) rest (piece ::ₘ held) := by
  refine ⟨?_, ?_, ?_⟩
  · simp [Journal.cut, accounted.line]
  · intro other member
    rcases List.mem_append.mp member with old | new
    · exact accounted.full other old
    · rw [List.mem_singleton.mp new]
      exact nonempty
  · have added : ((journal.cut piece).cuts : Multiset Piece) = piece ::ₘ journal.cuts :=
      Multiset.coe_eq_coe.mpr (List.perm_append_singleton _ _)
    rw [added, accounted.placed, Multiset.cons_add]
    rfl

theorem Accounted.write {piece : Piece}
    (accounted : Accounted items journal queue (piece ::ₘ held)) :
    Accounted items (journal.write piece) queue held := by
  refine ⟨accounted.line, accounted.full, ?_⟩
  have moved : ((journal.write piece).written : Multiset Piece) = piece ::ₘ journal.written :=
    Multiset.coe_eq_coe.mpr (List.perm_append_singleton _ _)
  rw [moved, Multiset.cons_add, Multiset.add_cons, ← Multiset.cons_add]
  exact accounted.placed

theorem Accounted.fail {piece : Piece}
    (accounted : Accounted items journal queue (piece ::ₘ held)) :
    Accounted items (journal.fail piece) queue held := by
  refine ⟨accounted.line, accounted.full, ?_⟩
  have moved : ((journal.fail piece).failed : Multiset Piece) = piece ::ₘ journal.failed :=
    Multiset.coe_eq_coe.mpr (List.perm_append_singleton _ _)
  rw [moved, Multiset.add_cons, Multiset.add_cons, ← Multiset.cons_add]
  exact accounted.placed

theorem sum_split {Index Holding Total : Type*} [Fintype Index] [DecidableEq Index]
    [AddCommMonoid Total] (measure : Holding → Total) (holdings : Index → Holding)
    (index : Index) :
    ∃ rest, ∑ other, measure (holdings other) = measure (holdings index) + rest ∧
      ∀ holding, ∑ other, measure (Function.update holdings index holding other) =
        measure holding + rest := by
  refine ⟨∑ other ∈ Finset.univ.erase index, measure (holdings other), ?_, fun holding => ?_⟩
  · exact (Finset.add_sum_erase _ _ (Finset.mem_univ index)).symm
  · rw [← Finset.add_sum_erase _ _ (Finset.mem_univ index), Function.update_self]
    congr 1
    apply Finset.sum_congr rfl
    intro other member
    rw [Function.update_of_ne (Finset.ne_of_mem_erase member)]

end Accounts

section Stored

def placedAt (cmp : Key → Key → Ordering) [Std.TransCmp cmp] (keyOf : Piece → Key)
    (pieces : List Piece) : Std.ExtTreeMap Key Piece cmp :=
  pieces.foldl (fun placed piece => placed.insert (keyOf piece) piece) ∅

def inOrder (placed : Std.ExtTreeMap Key Piece cmp) : List Piece := placed.toList.map Prod.snd

def Increasing (cmp : Key → Key → Ordering) (keyOf : Piece → Key) (pieces : List Piece) : Prop :=
  pieces.Pairwise fun earlier later => cmp (keyOf earlier) (keyOf later) = .lt

variable (pieces : List Piece) {piece : Piece}

omit [Std.LawfulEqCmp cmp] in
theorem placed_at_append (piece : Piece) :
    placedAt cmp keyOf (pieces ++ [piece]) =
      (placedAt cmp keyOf pieces).insert (keyOf piece) piece := by
  simp [placedAt]

theorem placed_at_source {key : Key} (found : (placedAt cmp keyOf pieces)[key]? = some piece) :
    piece ∈ pieces ∧ keyOf piece = key := by
  classical
  induction pieces using List.reverseRecOn with
  | nil => simp [placedAt] at found
  | append_singleton front last ih =>
    rw [placed_at_append, get_insert] at found
    split at found
    · next same =>
      cases found
      exact ⟨by simp, same⟩
    · obtain ⟨member, own⟩ := ih found
      exact ⟨List.mem_append_left _ member, own⟩

theorem placed_at_own {pieces : List Piece} (distinct : (pieces.map keyOf).Nodup)
    (member : piece ∈ pieces) : (placedAt cmp keyOf pieces)[keyOf piece]? = some piece := by
  classical
  induction pieces using List.reverseRecOn with
  | nil => cases member
  | append_singleton front last ih =>
    rw [List.map_append, List.nodup_append] at distinct
    rw [placed_at_append, get_insert]
    rcases List.mem_append.mp member with earlier | latest
    · have apart : keyOf last ≠ keyOf piece := fun same =>
        distinct.2.2 (keyOf piece) (List.mem_map_of_mem earlier) (keyOf last) (by simp) same.symm
      rw [if_neg apart]
      exact ih distinct.1 earlier
    · rw [List.mem_singleton.mp latest, if_pos rfl]

theorem in_order_mem {pieces : List Piece} :
    piece ∈ inOrder (placedAt cmp keyOf pieces) ↔
      (placedAt cmp keyOf pieces)[keyOf piece]? = some piece :=
  mem_values_iff (fun _ _ found => (placed_at_source pieces found).2) piece

theorem in_order_increasing : Increasing cmp keyOf (inOrder (placedAt cmp keyOf pieces)) := by
  rw [Increasing, inOrder, List.pairwise_map]
  apply List.Pairwise.imp_of_mem _
    (Std.ExtTreeMap.ordered_keys_toList (t := placedAt cmp keyOf pieces))
  intro left right hereLeft hereRight below
  have own : ∀ entry ∈ (placedAt cmp keyOf pieces).toList, keyOf entry.2 = entry.1 := by
    intro entry member
    exact (placed_at_source pieces
      (Std.ExtTreeMap.mem_toList_iff_getElem?_eq_some.mp member)).2
  rw [own left hereLeft, own right hereRight]
  exact below

omit [Std.TransCmp cmp] in
theorem Increasing.keys_nodup {pieces : List Piece} (increasing : Increasing cmp keyOf pieces) :
    (pieces.map keyOf).Nodup := by
  rw [List.Nodup, List.pairwise_map]
  apply List.Pairwise.imp _ increasing
  intro earlier later below same
  have equal := @Std.ReflCmp.compare_self Key cmp _ (keyOf later)
  rw [same, equal] at below
  cases below

end Stored

section Exact

variable {journal : Journal Item Piece}

theorem pieces_of_contents {cuts stored : List Piece} (full : ∀ piece ∈ cuts, items piece ≠ [])
    (distinct : (cuts.flatMap items).Nodup) (inside : ∀ piece ∈ stored, piece ∈ cuts)
    (same : stored.flatMap items = cuts.flatMap items) : stored = cuts := by
  induction cuts generalizing stored with
  | nil =>
    exact List.eq_nil_iff_forall_not_mem.mpr fun piece member =>
    List.not_mem_nil (inside piece member)
  | cons cut rest ih =>
    obtain ⟨nonempty, others⟩ := List.forall_mem_cons.mp full
    obtain ⟨first, more, starts⟩ := List.exists_cons_of_ne_nil nonempty
    rw [List.flatMap_cons, List.nodup_append] at distinct
    cases stored with
    | nil =>
      rw [List.flatMap_nil, List.flatMap_cons, starts] at same
      cases same
    | cons head tail =>
      obtain ⟨headInside, tailInside⟩ := List.forall_mem_cons.mp inside
      -- The first stored piece begins with the first item, which only `cut` has.
      have own : head = cut := by
        rcases List.mem_cons.mp headInside with own | later
        · exact own
        · obtain ⟨item, following, begins⟩ := List.exists_cons_of_ne_nil (others head later)
          rw [List.flatMap_cons, List.flatMap_cons, starts, begins] at same
          have sameItem : item = first := (List.cons.inj same).1
          exact absurd rfl (distinct.2.2 first (by simp [starts]) first
            (List.mem_flatMap.mpr ⟨head, later, by simp [begins, sameItem]⟩))
      subst own
      rw [List.flatMap_cons, List.flatMap_cons, List.append_cancel_left_eq] at same
      have later : ∀ piece ∈ tail, piece ∈ rest := by
        intro piece member
        rcases List.mem_cons.mp (tailInside piece member) with again | later
        · have listed : first ∈ rest.flatMap items := by
            rw [← same]
            exact List.mem_flatMap.mpr ⟨piece, member, by simp [again, starts]⟩
          exact absurd rfl (distinct.2.2 first (by simp [starts]) first listed)
        · exact later
      rw [ih others distinct.2.1 later same]

/-- Every submission is in the queue or stored once, and what is stored is the
front of the submissions. -/
def FifoOnce [DecidableEq Item] (items : Piece → List Item) (stored : List Piece)
    (queue submitted : List Item) : Prop :=
  (∀ item, queue.count item + (stored.flatMap items).count item = submitted.count item) ∧
    stored.flatMap items <+: submitted

theorem fifo_once_iff [DecidableEq Item] {stored : List Piece} {submitted : List Item}
    (waiting : queue <:+ submitted) :
    FifoOnce items stored queue submitted ↔ stored.flatMap items ++ queue = submitted := by
  constructor
  · rintro ⟨counted, rest, rfl⟩
    have same : queue.Perm rest := by
      rw [List.perm_iff_count]
      intro item
      have total := counted item
      rw [List.count_append] at total
      omega
    have tail : queue <:+ rest :=
      List.suffix_of_suffix_length_le waiting (List.suffix_append _ _) same.length_eq.le
    rw [tail.eq_of_length same.length_eq]
  · rintro rfl
    refine ⟨fun item => ?_, List.prefix_append _ _⟩
    rw [List.count_append, Nat.add_comm]

variable [DecidableEq Item]

/-- With nothing lost and keys that increase, the stored pieces are the cuts. -/
theorem fifo_once_of_increasing (accounted : Accounted items journal queue 0)
    (kept : journal.failed = []) (increasing : Increasing cmp keyOf journal.cuts) :
    FifoOnce items (inOrder (placedAt cmp keyOf journal.written)) queue journal.submitted := by
  have written : journal.cuts.Perm journal.written := by
    have placed := accounted.placed
    rw [kept, zero_add, Multiset.coe_nil, add_zero] at placed
    exact Multiset.coe_eq_coe.mp placed
  have distinct : (journal.written.map keyOf).Nodup :=
    (written.map keyOf).nodup_iff.mp increasing.keys_nodup
  have stored : (inOrder (placedAt cmp keyOf journal.written)).Perm journal.cuts := by
    rw [List.perm_ext_iff_of_nodup (in_order_increasing _).keys_nodup.of_map
      increasing.keys_nodup.of_map]
    intro piece
    rw [in_order_mem, written.mem_iff]
    exact ⟨fun found => (placed_at_source _ found).1, placed_at_own distinct⟩
  have same : inOrder (placedAt cmp keyOf journal.written) = journal.cuts := by
    refine stored.eq_of_pairwise ?_ (in_order_increasing _) increasing
    intro left right _ _ below above
    have swapped := @Std.OrientedCmp.eq_swap Key cmp _ (keyOf left) (keyOf right)
    rw [below, above] at swapped
    cases swapped
  rw [fifo_once_iff ⟨_, accounted.line.symm⟩, same]
  exact accounted.line.symm

/-- A piece that is held or lost has an item that is neither stored nor queued. -/
theorem increasing_of_fifo_once {held : Multiset Piece}
    (accounted : Accounted items journal queue held) (distinct : journal.submitted.Nodup)
    (fifo : FifoOnce items (inOrder (placedAt cmp keyOf journal.written)) queue
      journal.submitted) :
    held = 0 ∧ journal.failed = [] ∧ Increasing cmp keyOf journal.cuts := by
  have placed := accounted.placed
  have line := accounted.line
  rw [fifo_once_iff ⟨_, line.symm⟩, line, List.append_cancel_right_eq] at fifo
  rw [line, List.nodup_append] at distinct
  have stored : inOrder (placedAt cmp keyOf journal.written) = journal.cuts := by
    refine pieces_of_contents accounted.full distinct.1 ?_ fifo
    intro piece member
    have source := (placed_at_source _ (in_order_mem.mp member)).1
    have inCuts : piece ∈ (journal.cuts : Multiset Piece) := by
      rw [placed]
      simp only [Multiset.mem_add, Multiset.mem_coe, source, true_or, or_true]
    exact Multiset.mem_coe.mp inCuts
  have increasing : Increasing cmp keyOf journal.cuts := stored ▸ in_order_increasing _
  -- The stored pieces are among the written ones, which leaves none for the others.
  have fewer : journal.cuts.length ≤ journal.written.length := by
    apply List.Subperm.length_le
    apply increasing.keys_nodup.of_map.subperm
    intro piece member
    rw [← stored] at member
    exact (placed_at_source _ (in_order_mem.mp member)).1
  have sizes := congrArg Multiset.card placed
  simp only [Multiset.coe_card, Multiset.card_add] at sizes
  exact ⟨Multiset.card_eq_zero.mp (by omega), List.length_eq_zero_iff.mp (by omega), increasing⟩

end Exact

variable (id : Item → Key)

/-- Cutting a queue at the limit yields what was added last, and leaves none of
it, exactly when nothing else is there and the limit admits it. -/
theorem cut_added_iff (backlog added : List Item) (limit : Nat) :
    ((backlog ++ added).take limit).map id = added.map id ∧
        (∀ item ∈ added, id item ∉ ((backlog ++ added).drop limit).map id) ↔
      (backlog = [] ∧ added.length ≤ limit) ∨ (added = [] ∧ limit = 0) := by
  constructor
  · rintro ⟨same, gone⟩
    have size := congrArg List.length same
    simp only [List.length_map, List.length_take, List.length_append] at size
    rcases List.eq_nil_or_concat added with rfl | ⟨front, last, rfl⟩
    · rw [List.length_nil] at size
      rcases Nat.eq_zero_or_pos limit with zero | positive
      · exact Or.inr ⟨rfl, zero⟩
      · refine Or.inl ⟨List.length_eq_zero_iff.mp ?_, Nat.zero_le _⟩
        omega
    · left
      -- The last item is cut off unless the limit reaches the end of the queue.
      have reaches : (backlog ++ front.concat last).length ≤ limit := by
        by_contra short
        apply gone last (by simp)
        apply List.mem_map_of_mem
        rw [List.concat_eq_append, ← List.append_assoc] at short ⊢
        rw [List.drop_append_of_le_length (by simp at short ⊢; omega)]
        simp
      rw [List.length_append] at reaches
      exact ⟨List.length_eq_zero_iff.mp (by omega), by omega⟩
  · rintro (⟨rfl, fits⟩ | ⟨rfl, rfl⟩)
    · simp [List.take_of_length_le fits, List.drop_of_length_le fits]
    · simp

end CeruleanLedger.CutQueues

import Mathlib

/-!
Keys in lexicographic order and their prefixes. The keys with a prefix form one block that
begins at the prefix. Fields that end in a separator make keys whose prefixes are prefixes of
the lists of fields.
-/

namespace CeruleanLedger.KeyPrefixes

section Order

variable {Letter : Type*} [LinearOrder Letter]

theorem not_lt_of_prefix {front key : List Letter} (starts : front <+: key) : ¬ key < front := by
  induction front generalizing key with
  | nil => exact List.not_lt_nil key
  | cons letter front ih =>
    obtain ⟨rest, rfl⟩ := starts
    rw [List.cons_append, List.cons_lt_cons_self]
    exact ih (List.prefix_append front rest)

theorem prefix_of_between {front key other : List Letter} (above : ¬ key < front)
    (below : key < other) (starts : front <+: other) : front <+: key := by
  induction front generalizing key other with
  | nil => exact List.nil_prefix
  | cons letter front ih =>
    obtain ⟨rest, rfl⟩ := starts
    cases key with
    | nil => exact absurd (List.nil_lt_cons letter front) above
    | cons first key =>
      rw [List.cons_lt_cons_iff, not_or, not_and] at above
      rw [List.cons_append, List.cons_lt_cons_iff] at below
      have same : first = letter := by
        rcases below with less | ⟨same, _⟩
        · exact absurd less above.1
        · exact same
      subst same
      have later : key < front ++ rest := by simpa using below
      exact List.cons_prefix_cons.mpr
        ⟨rfl, ih (above.2 rfl) later (List.prefix_append front rest)⟩

/-- The range from a key up to its last letter's successor is the block of its
extensions. -/
theorem prefix_iff_in_range {front key : List Letter} {last next : Letter}
    (adjacent : ∀ letter, letter < next ↔ letter ≤ last) :
    front ++ [last] <+: key ↔ ¬ key < front ++ [last] ∧ key < front ++ [next] := by
  induction front generalizing key with
  | nil =>
    cases key with
    | nil => simp
    | cons first key =>
      simp only [List.nil_append, List.cons_prefix_cons, List.nil_prefix, and_true,
        List.cons_lt_cons_iff, List.not_lt_nil, and_false, or_false, adjacent, not_lt]
      exact ⟨fun same => ⟨same.le, same.ge⟩, fun both => le_antisymm both.1 both.2⟩
  | cons letter front ih =>
    cases key with
    | nil => simp
    | cons first key =>
      simp only [List.cons_append, List.cons_prefix_cons, List.cons_lt_cons_iff, ih]
      constructor
      · rintro ⟨rfl, above, below⟩
        simp [above, below]
      · rintro ⟨above, below⟩
        have same : letter = first := by
          rcases below with less | ⟨same, _⟩
          · exact absurd (Or.inl less) above
          · exact same.symm
        subst same
        simpa using And.intro above below

end Order

section Scans

variable {Value : Type*}

/-- On rows in an order that the test goes down along, stopping at the first
failure loses nothing. -/
theorem takeWhile_eq_filter {Row : Type*} {Before : Row → Row → Prop} {test : Row → Bool}
    {rows : List Row} (sorted : rows.Pairwise Before)
    (closed : ∀ earlier later, Before earlier later → test later = true → test earlier = true) :
    rows.takeWhile test = rows.filter test := by
  induction rows with
  | nil => rfl
  | cons row rest ih =>
    obtain ⟨before, later⟩ := List.pairwise_cons.mp sorted
    by_cases passes : test row = true
    · rw [List.takeWhile_cons_of_pos passes, List.filter_cons_of_pos passes, ih later]
    · rw [List.takeWhile_cons_of_neg passes, List.filter_cons_of_neg passes]
      symm
      rw [List.filter_eq_nil_iff]
      intro other member accepted
      exact passes (closed row other (before other member) accepted)

/-- The rows from the prefix on, up to the first one whose key does not have it. -/
def scan (front : String) (entries : List (String × Value)) : List (String × Value) :=
  (entries.filter fun entry => !decide (entry.1 < front)).takeWhile
    fun entry => front.toList.isPrefixOf entry.1.toList

theorem scan_eq_filter (front : String) (entries : List (String × Value))
    (sorted : entries.Pairwise fun left right => left.1 < right.1) :
    scan front entries =
      entries.filter fun entry => front.toList.isPrefixOf entry.1.toList := by
  have behind : (entries.filter fun entry => !decide (entry.1 < front)).Pairwise
      fun left right => left.1 < right.1 ∧ ¬ left.1 < front := by
    apply (sorted.filter _).imp_of_mem
    intro left right member _ before
    exact ⟨before, by simpa using (List.mem_filter.mp member).2⟩
  rw [scan, takeWhile_eq_filter behind, List.filter_filter]
  · apply List.filter_congr
    intro entry _
    by_cases starts : front.toList.isPrefixOf entry.1.toList = true
    · have reached : ¬ entry.1 < front := by
        rw [String.lt_iff_toList_lt]
        exact not_lt_of_prefix (List.isPrefixOf_iff_prefix.mp starts)
      simp [starts, reached]
    · simp [starts]
  · -- Behind the iterator the block of the prefix comes first.
    rintro left right ⟨before, reached⟩ starts
    rw [List.isPrefixOf_iff_prefix] at starts ⊢
    exact prefix_of_between (String.lt_iff_toList_lt.not.mp reached)
      (String.lt_iff_toList_lt.mp before) starts

theorem collect_ok {Row Item Error : Type*} (look : Row → Except Error Item)
    (get : Row → Option Item) (rows : List Row)
    (found : ∀ row ∈ rows, ∃ item, get row = some item ∧ look row = .ok item) :
    rows.mapM look = .ok (rows.filterMap get) := by
  induction rows with
  | nil => rfl
  | cons row rest ih =>
    obtain ⟨here, later⟩ := List.forall_mem_cons.mp found
    obtain ⟨item, stored, read⟩ := here
    rw [List.mapM_cons, read, ih later, List.filterMap_cons_some stored]
    rfl

theorem collect_each {Row Item Error : Type*} {look : Row → Except Error Item} {rows : List Row}
    {items : List Item} (collected : rows.mapM look = .ok items) {row : Row} (member : row ∈ rows) :
    ∃ item ∈ items, look row = .ok item := by
  induction rows generalizing items with
  | nil => cases member
  | cons first rest ih =>
    rw [List.mapM_cons] at collected
    cases read : look first with
    | error reason =>
      rw [read] at collected
      cases collected
    | ok item =>
      cases later : rest.mapM look with
      | error reason =>
        rw [read, later] at collected
        cases collected
      | ok others =>
        rw [read, later] at collected
        cases collected
        rcases List.mem_cons.mp member with rfl | inside
        · exact ⟨item, List.mem_cons_self, read⟩
        · obtain ⟨found, listed, same⟩ := ih later inside
          exact ⟨found, List.mem_cons_of_mem _ listed, same⟩

end Scans

variable {Letter : Type*} {separator : Letter}

theorem field_prefix_iff {field other rest rest' : List Letter} (plain : separator ∉ field)
    (plain' : separator ∉ other) :
    field ++ separator :: rest <+: other ++ separator :: rest' ↔
      field = other ∧ rest <+: rest' := by
  induction field generalizing other with
  | nil =>
    cases other with
    | nil => simp
    | cons letter other =>
      have differs : separator ≠ letter := fun same => plain' (same ▸ List.mem_cons_self)
      simp [differs]
  | cons letter field ih =>
    cases other with
    | nil =>
      have differs : letter ≠ separator := fun same => plain (same ▸ List.mem_cons_self)
      simp [differs]
    | cons letter' other =>
      have shorter := ih (fun member => plain (List.mem_cons_of_mem _ member))
        (fun member => plain' (List.mem_cons_of_mem _ member))
      simp only [List.cons_append, List.cons_prefix_cons, shorter, List.cons.injEq, and_assoc]

variable (separator) in
def terminated (fields : List (List Letter)) : List Letter :=
  fields.flatMap fun field => field ++ [separator]

theorem terminated_cons (field : List Letter) (fields : List (List Letter)) :
    terminated separator (field :: fields) = field ++ separator :: terminated separator fields := by
  simp [terminated]

theorem terminated_ends {fields : List (List Letter)} (filled : fields ≠ []) :
    ∃ body, terminated separator fields = body ++ [separator] := by
  obtain ⟨earlier, last, rfl⟩ := List.eq_nil_or_concat' fields |>.resolve_left filled
  exact ⟨terminated separator earlier ++ last, by simp [terminated]⟩

theorem terminated_prefix_iff {fields others : List (List Letter)}
    (plain : ∀ field ∈ fields, separator ∉ field) (plain' : ∀ field ∈ others, separator ∉ field) :
    terminated separator fields <+: terminated separator others ↔ fields <+: others := by
  induction fields generalizing others with
  | nil => simp [terminated]
  | cons field fields ih =>
    obtain ⟨here, rest⟩ := List.forall_mem_cons.mp plain
    cases others with
    | nil => simp [terminated]
    | cons other others =>
      obtain ⟨here', rest'⟩ := List.forall_mem_cons.mp plain'
      rw [terminated_cons, terminated_cons, field_prefix_iff here here', ih rest rest',
        List.cons_prefix_cons]

theorem intercalate_terminated (fields : List (List Letter)) :
    [separator].intercalate (fields ++ [[]]) = terminated separator fields := by
  induction fields with
  | nil => simp [terminated]
  | cons field fields ih =>
    cases fields with
    | nil => simp [terminated, List.intercalate]
    | cons next fields =>
      rw [terminated_cons, ← ih]
      simp [List.intercalate]

theorem split_terminated [BEq Letter] [LawfulBEq Letter] {fields : List (List Letter)}
    (plain : ∀ field ∈ fields, separator ∉ field) :
    (terminated separator fields).splitOn separator = fields ++ [[]] := by
  rw [← intercalate_terminated]
  apply List.splitOn_intercalate
  · intro field member
    rcases List.mem_append.mp member with inside | last
    · exact plain field inside
    · rw [List.mem_singleton.mp last]
      exact List.not_mem_nil
  · exact List.append_ne_nil_of_right_ne_nil _ (List.cons_ne_nil _ _)

end CeruleanLedger.KeyPrefixes

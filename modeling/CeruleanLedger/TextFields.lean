import Mathlib

/-!
Splitting text into lines and lines into fields, as `str::lines` and
`str::splitn` do, on lists of characters. What was written with separators
that do not occur inside the pieces is read back piece by piece.
-/

namespace CeruleanLedger.TextFields

/-- A carriage return directly before the line feed belongs to the line end. -/
def dropReturn : List Char → List Char
  | '\r' :: rest => rest
  | text => text

/-- The lines of the text, the characters of the current one collected in
reverse. A last line without a line feed counts if it is not empty. -/
def linesFrom (current : List Char) : List Char → List (List Char)
  | [] => if current.isEmpty then [] else [current.reverse]
  | char :: rest =>
    if char = '\n' then (dropReturn current).reverse :: linesFrom [] rest
    else linesFrom (char :: current) rest

def lines (text : List Char) : List (List Char) := linesFrom [] text

def splitOnce (separator : Char) : List Char → List Char × Option (List Char)
  | [] => ([], none)
  | char :: rest =>
    if char = separator then ([], some rest)
    else
      let (field, remainder) := splitOnce separator rest
      (char :: field, remainder)

/-- At most `count` fields; the last one takes the rest of the text. -/
def splitn (separator : Char) : Nat → List Char → List (List Char)
  | 0, _ => []
  | 1, text => [text]
  | count + 2, text =>
    match splitOnce separator text with
    | (field, none) => [field]
    | (field, some rest) => field :: splitn separator (count + 1) rest

theorem lines_from_append (current line rest : List Char) (plain : '\n' ∉ line) :
    linesFrom current (line ++ '\n' :: rest) =
      (dropReturn (line.reverse ++ current)).reverse :: linesFrom [] rest := by
  induction line generalizing current with
  | nil => rfl
  | cons char more ih =>
    rw [List.mem_cons, not_or] at plain
    rw [List.cons_append, linesFrom, if_neg fun same => plain.1 same.symm, ih _ plain.2,
      List.reverse_cons, List.append_assoc]
    rfl

theorem drop_return_reverse {line : List Char} (plain : line.getLast? ≠ some '\r') :
    (dropReturn line.reverse).reverse = line := by
  rw [← List.head?_reverse] at plain
  cases ends : line.reverse with
  | nil =>
    rw [List.reverse_eq_nil_iff] at ends
    rw [ends]
    rfl
  | cons last rest =>
    rw [ends, List.head?_cons] at plain
    have kept : dropReturn (last :: rest) = last :: rest := by
      unfold dropReturn
      split
      · rename_i more same
        cases same
        exact absurd rfl plain
      · rfl
    rw [kept, ← ends, List.reverse_reverse]

theorem lines_flat_map (pieces : List (List Char))
    (plain : ∀ line ∈ pieces, '\n' ∉ line ∧ line.getLast? ≠ some '\r') :
    lines (pieces.flatMap fun line => line ++ ['\n']) = pieces := by
  unfold lines
  induction pieces with
  | nil => rfl
  | cons line rest ih =>
    obtain ⟨here, others⟩ := List.forall_mem_cons.mp plain
    rw [List.flatMap_cons, List.append_assoc, List.singleton_append,
      lines_from_append _ _ _ here.1, List.append_nil, drop_return_reverse here.2, ih others]

variable {separator : Char} {text rest : List Char}

theorem mem_drop_return {char : Char} (member : char ∈ dropReturn text) : char ∈ text := by
  unfold dropReturn at member
  split at member
  · exact List.mem_cons_of_mem _ member
  · exact member

theorem lines_from_plain (current text : List Char) (plain : '\n' ∉ current) :
    ∀ line ∈ linesFrom current text, '\n' ∉ line := by
  induction text generalizing current with
  | nil =>
    intro line member
    unfold linesFrom at member
    split at member
    · cases member
    · rw [List.mem_singleton] at member
      rw [member, List.mem_reverse]
      exact plain
  | cons char rest ih =>
    intro line member
    rw [linesFrom] at member
    split at member
    · rcases List.mem_cons.mp member with same | later
      · rw [same, List.mem_reverse]
        exact fun inside => plain (mem_drop_return inside)
      · exact ih [] List.not_mem_nil line later
    · rename_i other
      -- The character joins the current line, which stays free of line feeds.
      apply ih (char :: current) _ line member
      rw [List.mem_cons, not_or]
      exact ⟨fun same => other same.symm, plain⟩

theorem split_once_field {field : List Char} (plain : separator ∉ field) :
    splitOnce separator (field ++ separator :: rest) = (field, some rest) := by
  induction field with
  | nil => simp [splitOnce]
  | cons char more ih =>
    rw [List.mem_cons, not_or] at plain
    rw [List.cons_append, splitOnce, if_neg fun same => plain.1 same.symm, ih plain.2]

theorem split_once_mem {char : Char} (member : char ∈ (splitOnce separator text).1) :
    char ∈ text := by
  induction text with
  | nil => cases member
  | cons first rest ih =>
    rw [splitOnce] at member
    split at member
    · cases member
    · rcases List.mem_cons.mp member with same | later
      · exact List.mem_cons.mpr (Or.inl same)
      · exact List.mem_cons_of_mem _ (ih later)

theorem split_once_count (present : 0 < text.count separator) :
    ∃ field rest, splitOnce separator text = (field, some rest) ∧
      rest.count separator + 1 = text.count separator := by
  induction text with
  | nil => simp at present
  | cons char more ih =>
    by_cases same : char = separator
    · subst same
      exact ⟨[], more, by simp [splitOnce], by simp⟩
    · rw [List.count_cons_of_ne same] at present ⊢
      obtain ⟨field, rest, found, counted⟩ := ih present
      exact ⟨char :: field, rest, by rw [splitOnce, if_neg same, found], counted⟩

theorem splitn_three_crowded (crowded : 2 < text.count separator) :
    ∃ first second rest, splitn separator 3 text = [first, second, rest] ∧ separator ∈ rest := by
  obtain ⟨first, more, found, counted⟩ := split_once_count (by omega : 0 < text.count separator)
  obtain ⟨second, rest, found', counted'⟩ :=
    split_once_count (by omega : 0 < more.count separator)
  refine ⟨first, second, rest, ?_, List.count_pos_iff.mp (by omega)⟩
  rw [splitn, found]
  dsimp only
  rw [splitn, found']
  rfl

theorem splitn_three_mem {char : Char} {first second : List Char}
    (split : splitn separator 3 text = [first, second, rest]) (member : char ∈ first) :
    char ∈ text := by
  rw [splitn] at split
  split at split
  · cases split
  · rename_i field more found
    have same : field = first := (List.cons.inj split).1
    have within : char ∈ (splitOnce separator text).1 := by
      rw [found, same]
      exact member
    exact split_once_mem within

end CeruleanLedger.TextFields

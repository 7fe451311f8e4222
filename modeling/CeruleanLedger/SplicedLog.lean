import Mathlib

/-!
A log whose entries carry consecutive indices from one on, and a table of the entries last
written under each index. A batch is spliced into the log at its first index, and recorded in
the table entry by entry.
-/

namespace CeruleanLedger.SplicedLog

variable {Entry : Type*} (index : Entry → Nat)

def Consecutive : Nat → List Entry → Prop
  | _, [] => True
  | start, entry :: rest => index entry = start ∧ Consecutive (start + 1) rest

def splice (log : List Entry) (start : Nat) (batch : List Entry) : List Entry :=
  log.take (start - 1) ++ batch

def record (table : Nat → Option Entry) (entry : Entry) : Nat → Option Entry :=
  Function.update table (index entry) (some entry)

def recordAll (table : Nat → Option Entry) (batch : List Entry) : Nat → Option Entry :=
  batch.foldl (record index) table

/-- The table answers every index of the log with the log's own entry. -/
structure Covers (table : Nat → Option Entry) (log : List Entry) : Prop where
  consecutive : Consecutive index 1 log
  answers : ∀ position entry, log[position]? = some entry → table (position + 1) = some entry

variable {index}

theorem consecutive_append (start : Nat) (left right : List Entry) :
    Consecutive index start (left ++ right) ↔
      Consecutive index start left ∧ Consecutive index (start + left.length) right := by
  induction left generalizing start with
  | nil => simp [Consecutive]
  | cons entry rest ih =>
    simp only [List.cons_append, Consecutive, ih, List.length_cons, and_assoc]
    rw [Nat.add_comm rest.length 1, ← Nat.add_assoc]

variable {start : Nat} {log batch : List Entry}

theorem consecutive_take (count : Nat) (consecutive : Consecutive index start log) :
    Consecutive index start (log.take count) := by
  rw [← List.take_append_drop count log, consecutive_append] at consecutive
  exact consecutive.1

theorem index_of_position {position : Nat} {entry : Entry}
    (consecutive : Consecutive index start log) (found : log[position]? = some entry) :
    index entry = start + position := by
  induction log generalizing start position with
  | nil => cases found
  | cons first rest ih =>
    cases position with
    | zero =>
      cases found
      exact consecutive.1
    | succ position =>
      rw [ih consecutive.2 found]
      omega

theorem record_all_cons (table : Nat → Option Entry) (entry : Entry) (rest : List Entry) :
    recordAll index table (entry :: rest) = recordAll index (record index table entry) rest :=
  rfl

theorem record_all_outside {wanted : Nat} (table : Nat → Option Entry)
    (consecutive : Consecutive index start batch)
    (outside : wanted < start ∨ start + batch.length ≤ wanted) :
    recordAll index table batch wanted = table wanted := by
  induction batch generalizing table start with
  | nil => rfl
  | cons entry rest ih =>
    obtain ⟨here, others⟩ := consecutive
    rw [List.length_cons] at outside
    have apart : wanted ≠ index entry := by omega
    rw [record_all_cons, ih (record index table entry) others (by omega), record,
      Function.update_of_ne apart]

theorem record_all_inside {position : Nat} {entry : Entry} (table : Nat → Option Entry)
    (consecutive : Consecutive index start batch) (found : batch[position]? = some entry) :
    recordAll index table batch (start + position) = some entry := by
  induction batch generalizing table start position with
  | nil => cases found
  | cons first rest ih =>
    obtain ⟨here, others⟩ := consecutive
    cases position with
    | zero =>
      cases found
      have untouched := record_all_outside (record index table entry) others
        (Or.inl (Nat.lt_succ_self start))
      rw [Nat.add_zero, record_all_cons, untouched, record, here, Function.update_self]
    | succ position =>
      have later := ih (record index table first) others found
      rw [Nat.add_assoc, Nat.add_comm 1 position] at later
      exact later

theorem record_all_known (table : Nat → Option Entry) (batch : List Entry) (wanted : Nat) :
    (recordAll index table batch wanted).isSome = true ↔
      (table wanted).isSome = true ∨ ∃ entry ∈ batch, index entry = wanted := by
  induction batch generalizing table with
  | nil => simp [recordAll]
  | cons entry rest ih =>
    rw [record_all_cons, ih, record, List.exists_mem_cons_iff]
    by_cases same : wanted = index entry
    · subst same
      simp
    · rw [Function.update_of_ne same]
      constructor
      · rintro (known | later)
        · exact Or.inl known
        · exact Or.inr (Or.inr later)
      · rintro (known | here | later)
        · exact Or.inl known
        · exact absurd here.symm same
        · exact Or.inr later

theorem covers_empty (table : Nat → Option Entry) : Covers index table [] where
  consecutive := trivial
  answers := nofun

theorem covers_splice {table : Nat → Option Entry} (covers : Covers index table log)
    (positive : 1 ≤ start) (reaches : start ≤ log.length + 1)
    (consecutive : Consecutive index start batch) :
    Covers index (recordAll index table batch) (splice log start batch) := by
  have kept : (log.take (start - 1)).length = start - 1 := by
    rw [List.length_take]
    omega
  constructor
  · rw [splice, consecutive_append, kept]
    have next : 1 + (start - 1) = start := by omega
    rw [next]
    exact ⟨consecutive_take _ covers.consecutive, consecutive⟩
  · intro position entry found
    rw [splice] at found
    by_cases before : position < start - 1
    · -- Below the batch neither side has changed.
      rw [List.getElem?_append_left (by omega), List.getElem?_take_of_lt before] at found
      rw [record_all_outside table consecutive (Or.inl (by omega))]
      exact covers.answers position entry found
    · rw [List.getElem?_append_right (by omega), kept] at found
      have inside := record_all_inside table consecutive found
      have shifted : start + (position - (start - 1)) = position + 1 := by omega
      rw [shifted] at inside
      exact inside

theorem splice_length (reaches : start ≤ log.length + 1) :
    (splice log start batch).length = start - 1 + batch.length := by
  rw [splice, List.length_append, List.length_take]
  omega

end CeruleanLedger.SplicedLog

import Mathlib

/-!
A log that takes an entry only if no earlier entry has the same key. Each
entry also concerns a subject. Offering an entry always leaves an entry with
its key, but an entry about its subject only if the key was free or the
subject was in the log already: keys that do not determine the subject lose
information.
-/

namespace CeruleanLedger.DedupLog

variable {Entry Key Subject : Type*} [DecidableEq Key] (key : Entry → Key)

def offer (log : List Entry) (entry : Entry) : List Entry :=
  if key entry ∈ log.map key then log else log ++ [entry]

variable {key}

theorem offer_known {log : List Entry} {entry : Entry} (known : key entry ∈ log.map key) :
    offer key log entry = log := if_pos known

theorem offer_fresh {log : List Entry} {entry : Entry} (fresh : key entry ∉ log.map key) :
    offer key log entry = log ++ [entry] := if_neg fresh

theorem subject_after_offer (subject : Entry → Subject) (log : List Entry) (entry : Entry)
    (wanted : Subject) :
    (∃ logged ∈ offer key log entry, subject logged = wanted) ↔
      (∃ logged ∈ log, subject logged = wanted) ∨
        (key entry ∉ log.map key ∧ subject entry = wanted) := by
  by_cases known : key entry ∈ log.map key
  · rw [offer_known known]
    simp [known]
  · rw [offer_fresh known]
    constructor
    · rintro ⟨logged, member, same⟩
      rcases List.mem_append.mp member with earlier | added
      · exact Or.inl ⟨logged, earlier, same⟩
      · rw [List.mem_singleton] at added
        subst added
        exact Or.inr ⟨known, same⟩
    · rintro (⟨logged, earlier, same⟩ | ⟨_, same⟩)
      · exact ⟨logged, List.mem_append_left _ earlier, same⟩
      · exact ⟨entry, List.mem_append_right _ (List.mem_singleton_self _), same⟩

theorem key_after_offer (log : List Entry) (entry : Entry) (wanted : Key) :
    wanted ∈ (offer key log entry).map key ↔ wanted ∈ log.map key ∨ key entry = wanted := by
  by_cases known : key entry ∈ log.map key
  · rw [offer_known known]
    constructor
    · exact Or.inl
    · rintro (earlier | same)
      · exact earlier
      · exact same ▸ known
  · rw [offer_fresh known, List.map_append, List.mem_append, List.map_singleton,
      List.mem_singleton, eq_comm]

end CeruleanLedger.DedupLog

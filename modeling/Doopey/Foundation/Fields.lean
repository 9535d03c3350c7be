import Mathlib.Data.List.Basic

/-!
# Cutting sequences into fields

`words` gives the maximal runs of elements that are not separators, the way
formatted input reads them; `lines` gives the pieces that are ended by a
terminator. Both recover the fields from a text in which every field is followed
by one terminator, under their own conditions on the fields.
-/

namespace Foundation

variable {α : Type*}

/-- The runs of non-separators, where `word` has been read of the first one. -/
def words (isSep : α → Bool) : List α → List α → List (List α)
  | word, [] => if word.isEmpty then [] else [word]
  | word, a :: text =>
      if isSep a then
        if word.isEmpty then words isSep [] text else word :: words isSep [] text
      else words isSep (word ++ [a]) text

/-- The pieces that end in `terminator`, where `line` has been read of the first
one. What is behind the last terminator is dropped. -/
def lines [DecidableEq α] (terminator : α) : List α → List α → List (List α)
  | _, [] => []
  | line, a :: text =>
      if a = terminator then line :: lines terminator [] text
      else lines terminator (line ++ [a]) text

section Words

variable {isSep : α → Bool}

/-- A field followed by a separator is the first word. -/
theorem words_append {word field text : List α} {a : α} (hfield : ∀ b ∈ field, ¬ isSep b)
    (hsep : isSep a) (hne : word ++ field ≠ []) :
    words isSep word (field ++ a :: text) = (word ++ field) :: words isSep [] text := by
  induction field generalizing word with
  | nil =>
      rw [List.append_nil] at hne ⊢
      simp [words, hsep, hne]
  | cons b field ih =>
      have hb : ¬ isSep b := hfield b List.mem_cons_self
      rw [List.cons_append, words, if_neg hb,
        ih (fun b' hmem => hfield b' (List.mem_cons_of_mem _ hmem)) (by simp), List.append_assoc,
        List.singleton_append]

/-- Fields without separators that are each followed by one are the words of a text. -/
theorem words_flatMap {a : α} (hsep : isSep a) {fields : List (List α)}
    (hfields : ∀ field ∈ fields, field ≠ [] ∧ ∀ b ∈ field, ¬ isSep b) :
    words isSep [] (fields.flatMap (· ++ [a])) = fields := by
  induction fields with
  | nil => rfl
  | cons field fields ih =>
      obtain ⟨hne, hfield⟩ := hfields field List.mem_cons_self
      rw [List.flatMap_cons, List.append_assoc, List.singleton_append,
        words_append hfield hsep (by simpa using hne), List.nil_append,
        ih fun field' hmem => hfields field' (List.mem_cons_of_mem _ hmem)]

/-- Words have no separators in them. -/
theorem not_isSep_of_mem_words {word text field : List α} (hword : ∀ b ∈ word, ¬ isSep b)
    (hmem : field ∈ words isSep word text) : ∀ b ∈ field, ¬ isSep b := by
  induction text generalizing word with
  | nil =>
      rw [words] at hmem
      split at hmem
      next => simp at hmem
      next => rwa [List.mem_singleton.mp hmem]
  | cons a text ih =>
      rw [words] at hmem
      split at hmem
      next =>
        split at hmem
        next => exact ih (by simp) hmem
        next =>
          rcases List.mem_cons.mp hmem with rfl | hmem
          · exact hword
          · exact ih (by simp) hmem
      next ha =>
        refine ih ?_ hmem
        intro b hb
        rcases List.mem_append.mp hb with hb | hb
        · exact hword b hb
        · rwa [List.mem_singleton.mp hb]

end Words

section Lines

variable [DecidableEq α] {terminator : α}

theorem lines_append {line field text : List α} (hfield : terminator ∉ field) :
    lines terminator line (field ++ terminator :: text) =
      (line ++ field) :: lines terminator [] text := by
  induction field generalizing line with
  | nil => simp [lines]
  | cons b field ih =>
      have hb : b ≠ terminator := fun heq => hfield (heq ▸ List.mem_cons_self)
      rw [List.cons_append, lines, if_neg hb, ih fun hmem => hfield (List.mem_cons_of_mem _ hmem),
        List.append_assoc, List.singleton_append]

/-- Fields without the terminator that are each followed by it are the lines of a text. -/
theorem lines_flatMap {fields : List (List α)} (hfields : ∀ field ∈ fields, terminator ∉ field) :
    lines terminator [] (fields.flatMap (· ++ [terminator])) = fields := by
  induction fields with
  | nil => rfl
  | cons field fields ih =>
      rw [List.flatMap_cons, List.append_assoc, List.singleton_append,
        lines_append (hfields field List.mem_cons_self), List.nil_append,
        ih fun field' hmem => hfields field' (List.mem_cons_of_mem _ hmem)]

end Lines

end Foundation

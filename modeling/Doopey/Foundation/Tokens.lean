import Mathlib.Data.List.Basic
import Mathlib.Data.List.TakeDrop
import Mathlib.Data.List.TakeWhile

/-!
# Cutting a text step by step

`nextToken` takes the next run of elements that are not separators off a text,
with the separator behind it; `pieces` gives what stands between terminators, the
last piece included if it is not empty.
-/

namespace Foundation

variable {α : Type*}

/-- The next run of non-separators, and what is left behind the separator that ends it. -/
def nextToken (isSep : α → Bool) (text : List α) : Option (List α) × List α :=
  let text := text.dropWhile isSep
  if text.isEmpty then (none, [])
  else (some (text.takeWhile (!isSep ·)), (text.dropWhile (!isSep ·)).tail)

/-- The pieces of a text that end at a terminator or at the end of the text. -/
def pieces [DecidableEq α] (terminator : α) : List α → List (List α)
  | [] => []
  | a :: text =>
      if a = terminator then [] :: pieces terminator text
      else match pieces terminator text with
        | [] => [[a]]
        | piece :: rest => (a :: piece) :: rest

section Tokens

variable {isSep : α → Bool}

/-- A run of non-separators. -/
structure IsToken (isSep : α → Bool) (token : List α) : Prop where
  nonempty : token ≠ []
  plain : ∀ a ∈ token, isSep a = false

/-- The text ends, or goes on with a separator. -/
def Stops (isSep : α → Bool) (text : List α) : Prop := ∀ a ∈ text.head?, isSep a = true

@[simp] theorem stops_nil : Stops isSep [] := by simp [Stops]

@[simp] theorem stops_cons {a : α} {text : List α} : Stops isSep (a :: text) ↔ isSep a = true := by
  simp [Stops]

/-- A gap of separators and a token behind it. -/
theorem nextToken_append {gap token rest : List α} (hgap : ∀ a ∈ gap, isSep a = true)
    (htoken : IsToken isSep token) (hrest : Stops isSep rest) :
    nextToken isSep (gap ++ (token ++ rest)) = (some token, rest.tail) := by
  have hstart : (gap ++ (token ++ rest)).dropWhile isSep = token ++ rest := by
    rw [List.dropWhile_append_of_pos hgap]
    obtain ⟨a, token', rfl⟩ := List.exists_cons_of_ne_nil htoken.nonempty
    rw [List.cons_append, List.dropWhile_cons_of_neg]
    simp [htoken.plain a List.mem_cons_self]
  have hplain : ∀ a ∈ token, (!isSep a) = true := by simpa using htoken.plain
  have htake : (token ++ rest).takeWhile (!isSep ·) = token := by
    rw [List.takeWhile_append_of_pos hplain]
    cases rest with
    | nil => simp
    | cons a rest => simpa using hrest
  have hdrop : (token ++ rest).dropWhile (!isSep ·) = rest := by
    rw [List.dropWhile_append_of_pos hplain]
    cases rest with
    | nil => rfl
    | cons a rest =>
        rw [List.dropWhile_cons_of_neg]
        simpa using hrest
  have hne : ¬ (token ++ rest).isEmpty = true := by simp [htoken.nonempty]
  unfold nextToken
  dsimp only
  rw [hstart, if_neg hne, htake, hdrop]

/-- The head of what is left behind a run ends the run. -/
theorem stops_dropWhile (isSep : α → Bool) (text : List α) :
    Stops isSep (text.dropWhile (!isSep ·)) := by
  intro a ha
  have hnot := List.head?_dropWhile_not (!isSep ·) text
  rw [Option.mem_def.mp ha] at hnot
  simpa using hnot

/-- There is no token if there are only separators. -/
theorem nextToken_of_all {text : List α} (hall : ∀ a ∈ text, isSep a = true) :
    nextToken isSep text = (none, []) := by
  unfold nextToken
  rw [List.dropWhile_eq_nil_iff.mpr hall]
  rfl

/-- A text has only separators in it, or begins with a gap and a token. -/
theorem tokens_cases (isSep : α → Bool) (text : List α) :
    (∀ a ∈ text, isSep a = true) ∨ ∃ gap token rest, text = gap ++ (token ++ rest) ∧
      (∀ a ∈ gap, isSep a = true) ∧ IsToken isSep token ∧ Stops isSep rest := by
  by_cases hempty : text.dropWhile isSep = []
  · exact Or.inl (List.dropWhile_eq_nil_iff.mp hempty)
  · refine Or.inr ⟨text.takeWhile isSep, (text.dropWhile isSep).takeWhile (!isSep ·),
      (text.dropWhile isSep).dropWhile (!isSep ·), ?_, fun a ha => List.mem_takeWhile_imp ha, ⟨?_, ?_⟩,
      stops_dropWhile isSep _⟩
    · rw [List.takeWhile_append_dropWhile, List.takeWhile_append_dropWhile]
    · have hhead := List.head?_dropWhile_not isSep text
      obtain ⟨a, rest, hrest⟩ := List.exists_cons_of_ne_nil hempty
      rw [hrest] at hhead ⊢
      rw [List.takeWhile_cons_of_pos]
      · exact List.cons_ne_nil _ _
      · simpa using hhead
    · intro a ha
      simpa using List.mem_takeWhile_imp ha

/-- There is a next token exactly if the text begins with a gap and a token. -/
theorem nextToken_eq_some_iff {text token left : List α} :
    nextToken isSep text = (some token, left) ↔ ∃ gap rest, text = gap ++ (token ++ rest) ∧
      (∀ a ∈ gap, isSep a = true) ∧ IsToken isSep token ∧ Stops isSep rest ∧ left = rest.tail := by
  constructor
  · intro hnext
    rcases tokens_cases isSep text with hall | ⟨gap, first, rest, htext, hgap, hfirst, hstops⟩
    · rw [nextToken_of_all hall] at hnext
      cases hnext
    · rw [htext, nextToken_append hgap hfirst hstops] at hnext
      cases hnext
      exact ⟨gap, rest, htext, hgap, hfirst, hstops, rfl⟩
  · rintro ⟨gap, rest, rfl, hgap, htoken, hstops, rfl⟩
    exact nextToken_append hgap htoken hstops

/-- There is a next token exactly if there is something else than separators. -/
theorem exists_nextToken_iff {text : List α} :
    (∃ token, (nextToken isSep text).1 = some token) ↔ ∃ a ∈ text, isSep a = false := by
  rcases tokens_cases isSep text with hall | ⟨gap, token, rest, rfl, hgap, htoken, hstops⟩
  · refine iff_of_false ?_ ?_
    · rw [nextToken_of_all hall]
      rintro ⟨token, htoken⟩
      cases htoken
    · rintro ⟨a, ha, hplain⟩
      rw [hall a ha] at hplain
      cases hplain
  · refine iff_of_true ⟨token, by rw [nextToken_append hgap htoken hstops]⟩ ?_
    obtain ⟨a, ha⟩ := List.exists_mem_of_ne_nil token htoken.nonempty
    exact ⟨a, List.mem_append_right _ (List.mem_append_left _ ha), htoken.plain a ha⟩

end Tokens

section Pieces

variable [DecidableEq α] {terminator : α}

theorem pieces_append {piece : List α} (hpiece : terminator ∉ piece) (text : List α) :
    pieces terminator (piece ++ terminator :: text) = piece :: pieces terminator text := by
  induction piece with
  | nil => simp [pieces]
  | cons a piece ih =>
      have ha : a ≠ terminator := fun heq => hpiece (heq ▸ List.mem_cons_self)
      rw [List.cons_append, pieces, if_neg ha, ih fun hmem => hpiece (List.mem_cons_of_mem _ hmem)]

/-- The last piece, without a terminator behind it. -/
theorem pieces_last {piece : List α} (hne : piece ≠ []) (hpiece : terminator ∉ piece) :
    pieces terminator piece = [piece] := by
  induction piece with
  | nil => exact absurd rfl hne
  | cons a piece ih =>
      have ha : a ≠ terminator := fun heq => hpiece (heq ▸ List.mem_cons_self)
      rw [pieces, if_neg ha]
      by_cases hnil : piece = []
      · rw [hnil, pieces]
      · rw [ih hnil fun hmem => hpiece (List.mem_cons_of_mem _ hmem)]

/-- Pieces that are each followed by a terminator. -/
theorem pieces_flatMap {all : List (List α)} (hall : ∀ piece ∈ all, terminator ∉ piece)
    (text : List α) :
    pieces terminator (all.flatMap (· ++ [terminator]) ++ text) = all ++ pieces terminator text := by
  induction all with
  | nil => rfl
  | cons piece all ih =>
      obtain ⟨hpiece, hrest⟩ := List.forall_mem_cons.mp hall
      rw [List.flatMap_cons, List.append_assoc, List.append_assoc, List.singleton_append,
        pieces_append hpiece, ih hrest, List.cons_append]

/-- What is in a piece is in the text, and is not a terminator. -/
theorem mem_of_mem_pieces {text piece : List α} (hpiece : piece ∈ pieces terminator text) {a : α}
    (ha : a ∈ piece) : a ∈ text ∧ a ≠ terminator := by
  induction text generalizing piece with
  | nil => exact absurd hpiece List.not_mem_nil
  | cons b text ih =>
      have hbehind {piece : List α} (hpiece : piece ∈ pieces terminator text) (ha : a ∈ piece) :
          a ∈ b :: text ∧ a ≠ terminator :=
        ⟨List.mem_cons_of_mem _ (ih hpiece ha).1, (ih hpiece ha).2⟩
      rw [pieces] at hpiece
      split at hpiece
      next =>
        rcases List.mem_cons.mp hpiece with rfl | hpiece
        · exact absurd ha List.not_mem_nil
        · exact hbehind hpiece ha
      next hb =>
        split at hpiece
        next =>
          obtain rfl := List.mem_singleton.mp hpiece
          obtain rfl := List.mem_singleton.mp ha
          exact ⟨List.mem_cons_self, hb⟩
        next first rest hpieces =>
          rcases List.mem_cons.mp hpiece with rfl | hpiece
          · rcases List.mem_cons.mp ha with rfl | ha
            · exact ⟨List.mem_cons_self, hb⟩
            · exact hbehind (hpieces ▸ List.mem_cons_self) ha
          · exact hbehind (hpieces ▸ List.mem_cons_of_mem _ hpiece) ha

end Pieces

end Foundation

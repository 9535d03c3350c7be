import Mathlib.Data.List.Basic

/-!
# What belongs to one party

Things that no two parties hold. They stay apart while parties hand over what they hold, and
take what nobody has.
-/

namespace Foundation

/-- No two parties hold the same thing. -/
def Exclusive {Party Thing : Type*} (holds : Party → Thing → Prop) : Prop :=
  ∀ ⦃p q : Party⦄ ⦃thing : Thing⦄, holds p thing → holds q thing → p = q

section Exclusive

variable {Party Party' Thing : Type*} {holds : Party → Thing → Prop}
  {holds' : Party' → Thing → Prop}

/-- Every party has what another one held, no two from the same one, and one of them may take
a thing that nobody held. -/
theorem Exclusive.take (h : Exclusive holds) (source : Party' → Party) (taker : Party')
    {thing : Thing} (hnew : ∀ p, ¬ holds p thing)
    (hsource : ∀ {p q other other'}, holds' p other → holds' q other' → source p = source q → p = q)
    (htakes : ∀ {p other}, holds' p other → holds (source p) other ∨ p = taker ∧ other = thing) :
    Exclusive holds' := by
  intro p q other hp hq
  rcases htakes hp with hold | ⟨rfl, rfl⟩ <;> rcases htakes hq with hold' | ⟨rfl, heq⟩
  · exact hsource hp hq (h hold hold')
  · exact absurd (heq ▸ hold) (hnew _)
  · exact absurd hold' (hnew _)
  · rfl

/-- Every party has what another one held, no two from the same one. -/
theorem Exclusive.hand_over (h : Exclusive holds) (source : Party' → Party)
    (hsource : ∀ {p q other other'}, holds' p other → holds' q other' → source p = source q → p = q)
    (hhas : ∀ {p other}, holds' p other → holds (source p) other) : Exclusive holds' :=
  fun _ _ _ hp hq => hsource hp hq (h (hhas hp) (hhas hq))

end Exclusive

end Foundation

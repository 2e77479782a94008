import ProtoJson.Reader.Value

/-!
# Induction on reads of any shape

Reading a value opens a container and reads what stands in it; members and items are read one by
one. A property that passes from the reads within to the read around them holds of all reads.
-/

namespace ProtoJson.Reader

/-- Properties of the reads of a value, of members and of items that pass from the reads that a read
makes to that read. -/
structure PassesOn (V : Reader → Prop) (M : Reader → List (String × Value) → Prop)
    (I : Reader → List Value → Prop) : Prop where
  value : ∀ s, (∀ t s₁ s₂, s.nextToken = (.ok t, s₁) → s₁.enter t = (.ok (), s₂) →
    M s₂ [] ∧ I s₂ []) → V s
  members : ∀ s ms, (∀ key s₁, s.string = (.ok key, s₁) →
    V s₁.colon ∧ ∀ ms, M s₁.colon.value.2.comma ms) → M s ms
  items : ∀ s vs, (s.peek?.isSome → V s ∧ ∀ vs, I s.value.2.comma vs) → I s vs

namespace PassesOn

variable {V : Reader → Prop} {M : Reader → List (String × Value) → Prop}
  {I : Reader → List Value → Prop}

mutual

theorem value_all (h : PassesOn V M I) (s : Reader) : V s := by
  apply h.value
  intro t s₁ s₂ hnext henter
  have hlt : s₁.remaining < s.remaining := (nextToken_progress hnext).2.2 t rfl
  have heq := enter_remaining s₁ t
  rw [henter] at heq
  have hrem : s₂.remaining < s.remaining := lt_of_eq_of_lt heq hlt
  exact ⟨members_all h s₂ [], items_all h s₂ []⟩
termination_by 4 * s.remaining
decreasing_by
  · omega
  · split <;> omega

theorem members_all (h : PassesOn V M I) (s : Reader) (ms : List (String × Value)) : M s ms := by
  apply h.members
  intro key s₁ hkey
  have hlt : s₁.remaining < s.remaining := by
    have hlt := (string_progress s).2 key (by rw [hkey])
    rwa [hkey] at hlt
  have hle : s₁.colon.value.2.remaining ≤ s₁.remaining := (valueStep s₁.colon).property.1
  exact ⟨value_all h s₁.colon, members_all h s₁.colon.value.2.comma⟩
termination_by 4 * s.remaining + 1
decreasing_by
  · simp only [remaining_colon]
    omega
  · simp only [remaining_comma]
    omega

theorem items_all (h : PassesOn V M I) (s : Reader) (vs : List Value) : I s vs := by
  apply h.items
  intro hpeek
  obtain ⟨hle, hlt⟩ : Passed s s.value.2 := (valueStep s).property
  exact ⟨value_all h s, items_all h s.value.2.comma⟩
termination_by 4 * s.remaining + (if s.pending = some (ascii ',') then 1 else 2)
decreasing_by
  · split <;> omega
  · -- The value is followed by a comma, and if one was announced before it, it has taken bytes.
    have hc : s.value.2.comma.pending = some (ascii ',') := rfl
    simp only [hc, if_true, remaining_comma]
    split
    · next hp =>
      have := hlt hp hpeek
      omega
    · omega

end

end PassesOn

end ProtoJson.Reader

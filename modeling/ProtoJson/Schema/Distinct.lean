/-!
# Distinct keys

Finding the first key of a list that occurs a second time. Nothing is found exactly when all keys
are distinct.
-/

namespace ProtoJson

/-- The first key that is in `seen` or occurs a second time, with what it stood for before and what
it stands for now. -/
def repeatAfter? {κ β : Type} [DecidableEq κ] (seen : List (κ × β)) :
    List (κ × β) → Option (κ × β × β)
  | [] => none
  | (k, b) :: rest =>
    match seen.find? (·.1 = k) with
    | some (_, a) => some (k, a, b)
    | none => repeatAfter? ((k, b) :: seen) rest

/-- The first key that occurs a second time, with what it stood for both times. -/
def firstRepeat? {κ β : Type} [DecidableEq κ] (entries : List (κ × β)) : Option (κ × β × β) :=
  repeatAfter? [] entries

theorem repeatAfter?_eq_none_iff {κ β : Type} [DecidableEq κ] (seen entries : List (κ × β)) :
    repeatAfter? seen entries = none ↔
      (entries.map (·.1)).Nodup ∧ ∀ e ∈ entries, ∀ s ∈ seen, s.1 ≠ e.1 := by
  induction entries generalizing seen with
  | nil => simp [repeatAfter?]
  | cons e rest ih =>
    obtain ⟨k, b⟩ := e
    rw [repeatAfter?]
    split
    · next s a h =>
      -- The key was seen before.
      have hk := List.find?_some h
      have hm := List.mem_of_find?_eq_some h
      simp only [decide_eq_true_eq] at hk
      simp only [reduceCtorEq, false_iff]
      intro hall
      exact hall.2 (k, b) (by simp) _ hm hk
    · next h =>
      -- The key is new, and counts as seen from here on.
      simp only [List.find?_eq_none, decide_eq_true_eq] at h
      rw [ih]
      simp only [List.map_cons, List.nodup_cons, List.mem_map, List.mem_cons]
      constructor
      · rintro ⟨hn, hd⟩
        refine ⟨⟨?_, hn⟩, ?_⟩
        · rintro ⟨e, he, rfl⟩
          exact hd e he _ (.inl rfl) rfl
        · rintro e (rfl | he) s hs
          · exact h s hs
          · exact hd e he s (.inr hs)
      · rintro ⟨⟨hk, hn⟩, hd⟩
        refine ⟨hn, ?_⟩
        rintro e he s (rfl | hs)
        · exact fun heq => hk ⟨e, he, heq.symm⟩
        · exact hd e (.inr he) s hs

/-- No key is found exactly when all keys are distinct. -/
theorem firstRepeat?_eq_none_iff {κ β : Type} [DecidableEq κ] (entries : List (κ × β)) :
    firstRepeat? entries = none ↔ (entries.map (·.1)).Nodup := by
  simp [firstRepeat?, repeatAfter?_eq_none_iff]

end ProtoJson

import Mathlib.Data.List.Nodup
import ProtoJson.Schema.Basic

/-!
# Distinct keys

Among items with distinct keys, a key finds its item, the place of the item, and no other item. So
each name of an enum stands for the value of its number.
-/

namespace ProtoJson

/-- A key that no other member of a list has finds its member, and the place of the member. -/
theorem find?_of_getElem? {α β : Type} [BEq β] [LawfulBEq β] {name : α → β} {xs : List α} {k : Nat}
    {a : α} (hxs : (xs.map name).Nodup) (h : xs[k]? = some a) :
    xs.find? (name · == name a) = some a ∧ xs.findIdx (name · == name a) = k := by
  induction xs generalizing k with
  | nil => cases h
  | cons x xs ih =>
    rw [List.map_cons, List.nodup_cons] at hxs
    cases k with
    | zero =>
      cases h
      simp [List.findIdx_cons]
    | succ k =>
      rw [List.getElem?_cons_succ] at h
      have hne : (name x == name a) = false := by
        rw [beq_eq_false_iff_ne]
        intro heq
        exact hxs.1 (heq ▸ List.mem_map_of_mem (List.mem_of_getElem? h))
      obtain ⟨hfind, hidx⟩ := ih hxs.2 h
      rw [List.find?_cons_of_neg (by simp [hne]), List.findIdx_cons, hne, hfind, hidx]
      exact ⟨rfl, rfl⟩

theorem find?_of_mem {α β : Type} [BEq β] [LawfulBEq β] {name : α → β} {xs : List α} {a : α}
    (hxs : (xs.map name).Nodup) (h : a ∈ xs) : xs.find? (name · == name a) = some a := by
  obtain ⟨k, hk⟩ := List.mem_iff_getElem?.1 h
  exact (find?_of_getElem? hxs hk).1

/-- A key that no other member of a list has selects its member alone. -/
theorem filter_eq_singleton {α β : Type} [DecidableEq β] {key : α → β} {xs : List α}
    (hxs : (xs.map key).Nodup) {a : α} (h : a ∈ xs) : xs.filter (key · = key a) = [a] := by
  obtain ⟨front, back, rfl⟩ := List.append_of_mem h
  rw [List.map_append, List.map_cons, List.nodup_middle, List.nodup_cons, ← List.map_append] at hxs
  have hother : ∀ b ∈ front ++ back, ¬decide (key b = key a) = true := fun b hb heq =>
    hxs.1 (of_decide_eq_true heq ▸ List.mem_map_of_mem hb)
  rw [List.filter_append, List.filter_cons_of_pos (by simp),
    List.filter_eq_nil_iff.2 fun b hb => hother b (List.mem_append_left back hb),
    List.filter_eq_nil_iff.2 fun b hb => hother b (List.mem_append_right front hb)]
  rfl

/-- Two namings that tell the same items apart are both distinct, or neither is. -/
theorem nodup_map_congr {α β γ : Type} {f : α → β} {g : α → γ} {as : List α}
    (h : ∀ a ∈ as, ∀ b ∈ as, f a = f b ↔ g a = g b) : (as.map f).Nodup ↔ (as.map g).Nodup := by
  rw [List.Nodup, List.Nodup, List.pairwise_map, List.pairwise_map]
  exact List.Pairwise.iff_of_mem fun ha hb => not_congr (h _ ha _ hb)

/-- Names of distinct items are distinct just if every item is found by its name. -/
theorem nodup_map_iff_find? {α : Type} {name : α → String} {as : List α} (has : as.Nodup) :
    (as.map name).Nodup ↔ ∀ a ∈ as, as.find? (name · == name a) = some a := by
  constructor
  · exact fun h a ha => find?_of_mem h ha
  · intro h
    refine has.map_on fun a ha b hb heq => ?_
    have hfind := h a ha
    rw [heq, h b hb] at hfind
    exact (Option.some.inj hfind).symm

/-- A declared name stands for the value of its number. -/
theorem EnumType.ofName?_of_mem {e : EnumType} (h : (e.values.map (·.name)).Nodup) {v : EnumValue}
    (hv : v ∈ e.values) : e.ofName? v.name = e.ofNumber? v.number := by
  rw [ofName?, find?_of_mem h hv, Option.bind_some]

end ProtoJson

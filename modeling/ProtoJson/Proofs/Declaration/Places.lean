import Mathlib.Data.List.Basic
import Mathlib.Data.Prod.Lex
import ProtoJson.Declaration.Scope

/-!
# Places of declarations

A message is declared at a place: the index of its file, then the index of the message outside all
others, and so on down to its own index. The lists of the declarations in a set of files go through
these places in lexicographic order, which is the order of the files and has every message before
those inside it.
-/

namespace ProtoJson

/-! ## What is declared -/

/-- The messages inside a message, itself included, each with its place and with the names on the
way to it. Nothing is declared inside a map entry. -/
inductive MessageDecl.Contains : MessageDecl → List Nat → List String → MessageDecl → Prop where
  | self (m : MessageDecl) : Contains m [] [] m
  | inside {m m' d : MessageDecl} {i : Nat} {place : List Nat} {path : List String}
    (hentry : m.isMapEntry = false) (hm : m.messages[i]? = some m')
    (h : Contains m' place path d) : Contains m (i :: place) (m'.name :: path) d

namespace FileDecl

/-- The message at a place in a set of files, with the scope inside it. An empty package counts as
none. -/
inductive DeclaresMessage (files : List FileDecl) : List Nat → Placed MessageDecl → Prop where
  | mk {i j : Nat} {file : FileDecl} {m d : MessageDecl} {place : List Nat} {path : List String}
    (hfile : files[i]? = some file) (hm : file.messages[j]? = some m)
    (h : m.Contains place path d) :
    DeclaresMessage files (i :: j :: place) ⟨⟨file.package.filter (· ≠ ""), m.name :: path⟩, d⟩

/-- The enums of a file, or of a message that is no map entry, with the scope around them. -/
inductive HoldsEnums (files : List FileDecl) : List Nat → Scope × List EnumDecl → Prop where
  | file {i : Nat} {file : FileDecl} (hfile : files[i]? = some file) :
    HoldsEnums files [i] (⟨file.package.filter (· ≠ ""), []⟩, file.enums)
  | message {place : List Nat} {m : Placed MessageDecl} (hm : DeclaresMessage files place m)
    (hentry : m.decl.isMapEntry = false) : HoldsEnums files place (m.scope, m.decl.enums)

/-- The enum at a place in a set of files: the place of the file or the message around it, and its
index there. -/
inductive DeclaresEnum (files : List FileDecl) : List Nat × Nat → Placed EnumDecl → Prop where
  | mk {place : List Nat} {k : Nat} {scope : Scope} {enums : List EnumDecl} {e : EnumDecl}
    (h : HoldsEnums files place (scope, enums)) (he : enums[k]? = some e) :
    DeclaresEnum files (place, k) ⟨scope.inside e.name, e⟩

end FileDecl

/-! ## Listings -/

/-- The items are exactly those that stand at some place, each once, in the order of their
places. -/
structure IsListing {ι α : Type} (before : ι → ι → Prop) (stands : ι → α → Prop)
    (items : List (ι × α)) : Prop where
  ascending : items.Pairwise fun a b => before a.1 b.1
  complete : ∀ place a, (place, a) ∈ items ↔ stands place a

/-- The elements of a list are those that stand at some place, each once, in the order of their
places. -/
def Lists {ι α : Type} (before : ι → ι → Prop) (stands : ι → α → Prop) (xs : List α) : Prop :=
  ∃ items : List (ι × α), IsListing before stands items ∧ items.map Prod.snd = xs

namespace IsListing

variable {ι α : Type} {before : ι → ι → Prop} {stands : ι → α → Prop} {items : List (ι × α)}

theorem filter (h : IsListing before stands items) (p : ι × α → Bool) :
    IsListing before (fun place a => stands place a ∧ p (place, a) = true) (items.filter p) where
  ascending := h.ascending.filter p
  complete place a := by rw [List.mem_filter, h.complete]

/-- Every list goes through its elements by their indices. -/
theorem indices (xs : List α) :
    IsListing (· < ·) (fun (i : Nat) (a : α) => xs[i]? = some a) (xs.zipIdx.map Prod.swap) where
  ascending := by
    have hplaces : (xs.zipIdx.map Prod.snd).Pairwise (· < ·) := by
      rw [List.zipIdx_map_snd]
      exact List.pairwise_lt_range'
    exact List.pairwise_map.2 (List.pairwise_map.1 hplaces)
  complete i a := by
    rw [List.mem_map]
    constructor
    · rintro ⟨⟨a', i'⟩, h, heq⟩
      cases heq
      exact List.mem_zipIdx_iff_getElem?.1 h
    · exact fun h => ⟨(a, i), List.mem_zipIdx_iff_getElem?.2 h, rfl⟩

end IsListing

namespace Lists

variable {ι α β : Type} {before : ι → ι → Prop} {stands : ι → α → Prop} {xs : List α}

theorem congr {stands' : ι → α → Prop} (h : Lists before stands xs)
    (heq : ∀ place a, stands place a ↔ stands' place a) : Lists before stands' xs := by
  obtain ⟨items, hitems, hxs⟩ := h
  exact ⟨items, ⟨hitems.ascending, fun place a => (hitems.complete place a).trans (heq place a)⟩,
    hxs⟩

theorem mem_iff (h : Lists before stands xs) {a : α} : a ∈ xs ↔ ∃ place, stands place a := by
  obtain ⟨items, hitems, rfl⟩ := h
  simp [hitems.complete]

theorem filter (h : Lists before stands xs) (p : α → Bool) :
    Lists before (fun place a => stands place a ∧ p a = true) (xs.filter p) := by
  obtain ⟨items, hitems, rfl⟩ := h
  refine ⟨items.filter fun e => p e.2, hitems.filter fun e => p e.2, ?_⟩
  rw [List.filter_map]
  rfl

theorem map (h : Lists before stands xs) (g : α → β) :
    Lists before (fun place b => ∃ a, stands place a ∧ b = g a) (xs.map g) := by
  obtain ⟨items, hitems, rfl⟩ := h
  refine ⟨items.map (Prod.map id g), ⟨List.pairwise_map.2 hitems.ascending, fun place b => ?_⟩, ?_⟩
  · rw [List.mem_map]
    constructor
    · rintro ⟨⟨place', a⟩, ha, heq⟩
      cases heq
      exact ⟨a, (hitems.complete place' a).1 ha, rfl⟩
    · rintro ⟨a, ha, rfl⟩
      exact ⟨(place, a), (hitems.complete place a).2 ha, rfl⟩
  · rw [List.map_map, List.map_map, Prod.map_snd']

/-- Every list goes through its elements by their indices. -/
theorem indices (xs : List α) :
    Lists (· < ·) (fun (i : Nat) (a : α) => xs[i]? = some a) xs := by
  refine ⟨_, .indices xs, ?_⟩
  rw [List.map_map]
  exact List.zipIdx_map_fst 0 xs

/-- An element before all others, at the place before all others. -/
theorem cons (h : Lists before stands xs) (place : ι) (a : α)
    (hplace : ∀ place' a', stands place' a' → before place place') :
    Lists before (fun place' a' => (place' = place ∧ a' = a) ∨ stands place' a') (a :: xs) := by
  obtain ⟨items, hitems, rfl⟩ := h
  refine ⟨(place, a) :: items, ⟨List.pairwise_cons.2 ⟨?_, hitems.ascending⟩, ?_⟩, rfl⟩
  · rintro ⟨place', a'⟩ h'
    exact hplace place' a' ((hitems.complete place' a').1 h')
  · intro place' a'
    rw [List.mem_cons, Prod.mk.injEq, hitems.complete]

/-- Lists one after another, by the places of both. -/
theorem flatMap {κ γ : Type} {before' : κ → κ → Prop} {inner : α → κ → β → Prop}
    {lex : γ → γ → Prop} (pair : ι → κ → γ) {sub : α → List β} (h : Lists before stands xs)
    (hsub : ∀ a ∈ xs, Lists before' (inner a) (sub a))
    (houter : ∀ i j k k', before i j → lex (pair i k) (pair j k'))
    (hinner : ∀ i k k', before' k k' → lex (pair i k) (pair i k')) :
    Lists lex (fun place b => ∃ i k a, place = pair i k ∧ stands i a ∧ inner a k b)
      (xs.flatMap sub) := by
  obtain ⟨items, hitems, rfl⟩ := h
  -- Each inner list brings the places of its own elements; those of its list are put in front.
  choose! inside hinside hmap using hsub
  have hmem : ∀ e ∈ items, e.2 ∈ items.map Prod.snd := fun e he => List.mem_map_of_mem he
  refine ⟨items.flatMap fun e => (inside e.2).map (Prod.map (pair e.1) id), ⟨?_, ?_⟩, ?_⟩
  · rw [List.pairwise_flatMap]
    constructor
    · intro e he
      exact List.pairwise_map.2 ((hinside e.2 (hmem e he)).ascending.imp fun hk => hinner _ _ _ hk)
    · refine hitems.ascending.imp fun hi => ?_
      intro x hx y hy
      obtain ⟨x', -, rfl⟩ := List.mem_map.1 hx
      obtain ⟨y', -, rfl⟩ := List.mem_map.1 hy
      exact houter _ _ _ _ hi
  · intro place b
    rw [List.mem_flatMap]
    constructor
    · rintro ⟨⟨i, a⟩, he, hb⟩
      obtain ⟨⟨k, b'⟩, hk, heq⟩ := List.mem_map.1 hb
      cases heq
      exact ⟨i, k, a, rfl, (hitems.complete i a).1 he, ((hinside a (hmem _ he)).complete k b').1 hk⟩
    · rintro ⟨i, k, a, rfl, ha, hb⟩
      have he := (hitems.complete i a).2 ha
      have hk := ((hinside a (hmem _ he)).complete k b).2 hb
      exact ⟨(i, a), he, List.mem_map.2 ⟨(k, b), hk, rfl⟩⟩
  · rw [List.map_flatMap, List.flatMap_map]
    apply List.flatMap_congr
    intro e he
    rw [← hmap e.2 (hmem e he), List.map_map, Prod.map_snd', Function.id_comp]

/-- Lists one after another, where the indices of the lists come first in the places. -/
theorem flatMap_cons {inner : α → List Nat → β → Prop} {sub : α → List β}
    (hsub : ∀ a ∈ xs, Lists (· < ·) (inner a) (sub a)) :
    Lists (· < ·) (fun place b => ∃ i place' a, place = i :: place' ∧ xs[i]? = some a ∧
      inner a place' b) (xs.flatMap sub) := by
  apply (indices xs).flatMap List.cons hsub
  · intro i j place place' hlt
    exact List.cons_lt_cons_iff.2 (.inl hlt)
  · intro i place place' hlt
    exact List.cons_lt_cons_iff.2 (.inr ⟨rfl, hlt⟩)

end Lists

/-! ## Declarations in order -/

namespace MessageDecl

/-- The messages that are declared in a message itself. -/
def nested (m : MessageDecl) : List MessageDecl := if m.isMapEntry then [] else m.messages

theorem placedAll_eq_flatMap (s : Scope) (ms : List MessageDecl) :
    placedAll s ms = ms.flatMap fun m => m.placed (s.inside m.name) := by
  induction ms with
  | nil => rfl
  | cons m ms ih => rw [placedAll, ih, List.flatMap_cons]

theorem placed_eq (s : Scope) (m : MessageDecl) :
    m.placed s = ⟨s, m⟩ :: m.nested.flatMap fun m' => m'.placed (s.inside m'.name) := by
  obtain ⟨name, fields, messages, enums, oneofs, isMapEntry⟩ := m
  rw [← placedAll_eq_flatMap, placed, nested]
  cases isMapEntry <;> rfl

/-- The messages inside a message whose scope is `s`, itself included. -/
def StandsIn (s : Scope) (m : MessageDecl) (place : List Nat) (p : Placed MessageDecl) : Prop :=
  ∃ path, m.Contains place path p.decl ∧ p.scope = ⟨s.package, s.path ++ path⟩

theorem standsIn_iff (s : Scope) (m : MessageDecl) (place : List Nat) (p : Placed MessageDecl) :
    m.StandsIn s place p ↔ (place = [] ∧ p = ⟨s, m⟩) ∨
      ∃ i place' m', place = i :: place' ∧ m.nested[i]? = some m' ∧
        m'.StandsIn (s.inside m'.name) place' p := by
  obtain ⟨scope, d⟩ := p
  constructor
  · rintro ⟨path, h, hscope⟩
    cases h with
    | self =>
      rw [List.append_nil] at hscope
      exact .inl ⟨rfl, by rw [show scope = s from hscope]⟩
    | inside hentry hm h =>
      refine .inr ⟨_, _, _, rfl, by rwa [nested, hentry, if_neg (by decide)], _, h, ?_⟩
      rw [hscope, Scope.inside, List.append_assoc, List.singleton_append]
  · rintro (⟨rfl, heq⟩ | ⟨i, place', m', rfl, hm, path, h, hscope⟩)
    · cases heq
      exact ⟨[], .self m, by rw [List.append_nil]⟩
    · rw [nested] at hm
      split at hm
      · cases hm
      · next hentry =>
        refine ⟨m'.name :: path, .inside (Bool.eq_false_of_not_eq_true hentry) hm h, ?_⟩
        rw [hscope, Scope.inside, List.append_assoc, List.singleton_append]

mutual

/-- `placed` goes through the messages inside a message by their places. -/
theorem lists_placed (s : Scope) (m : MessageDecl) :
    Lists (· < ·) (m.StandsIn s) (m.placed s) := by
  -- The recursion is on the declaration; `placed_eq` turns it into one list after another.
  have hnested : ∀ m' ∈ m.nested,
      Lists (· < ·) (m'.StandsIn (s.inside m'.name)) (m'.placed (s.inside m'.name)) := by
    cases m with
    | mk name fields messages enums oneofs isMapEntry =>
      have hmessages := lists_placed_of_mem messages
      intro m' hm'
      rw [nested] at hm'
      split at hm'
      · cases hm'
      · exact hmessages m' hm' _
  have hlists := (Lists.flatMap_cons hnested).cons [] ⟨s, m⟩ (by
    rintro place' p ⟨i, place, m', rfl, -⟩
    exact List.nil_lt_cons i place)
  rw [placed_eq]
  exact hlists.congr fun place p => (standsIn_iff s m place p).symm

theorem lists_placed_of_mem (ms : List MessageDecl) :
    ∀ m ∈ ms, ∀ s, Lists (· < ·) (m.StandsIn s) (m.placed s) := by
  cases ms with
  | nil => simp
  | cons m ms =>
    intro m' hm'
    rcases List.mem_cons.1 hm' with heq | hm'
    · rw [heq]
      exact fun s => lists_placed s m
    · exact lists_placed_of_mem ms m' hm'

end

end MessageDecl

namespace FileDecl

/-- The messages of a file, by their places in it. -/
def StandsIn (file : FileDecl) (place : List Nat) (p : Placed MessageDecl) : Prop :=
  ∃ (j : Nat) (place' : List Nat) (m : MessageDecl), place = j :: place' ∧
    file.messages[j]? = some m ∧ m.StandsIn (file.scope.inside m.name) place' p

theorem lists_placedMessages (file : FileDecl) :
    Lists (· < ·) file.StandsIn file.placedMessages := by
  rw [placedMessages, MessageDecl.placedAll_eq_flatMap]
  exact Lists.flatMap_cons fun m _ => MessageDecl.lists_placed _ m

theorem declaresMessage_iff (files : List FileDecl) (place : List Nat) (p : Placed MessageDecl) :
    DeclaresMessage files place p ↔
      ∃ i place' file, place = i :: place' ∧ files[i]? = some file ∧ file.StandsIn place' p := by
  obtain ⟨scope, d⟩ := p
  constructor
  · rintro ⟨hi, hj, h⟩
    exact ⟨_, _, _, rfl, hi, _, _, _, rfl, hj, _, h, rfl⟩
  · rintro ⟨i, -, file, rfl, hi, j, place, m, rfl, hj, path, h, hscope⟩
    rw [show scope = _ from hscope]
    exact .mk hi hj h

/-- The messages of a set of files are listed by their places. -/
theorem lists_flatMap_placedMessages (files : List FileDecl) :
    Lists (· < ·) (DeclaresMessage files) (files.flatMap placedMessages) :=
  (Lists.flatMap_cons fun file _ => file.lists_placedMessages).congr fun place p =>
    (declaresMessage_iff files place p).symm

/-- The scopes of a file that enums are declared in, with their enums. -/
def enumScopes (file : FileDecl) : List (Scope × List EnumDecl) :=
  (file.scope, file.enums) ::
    (file.placedMessages.filter (!·.decl.isMapEntry)).map fun m => (m.scope, m.decl.enums)

theorem placedEnums_eq_flatMap (file : FileDecl) :
    file.placedEnums = file.enumScopes.flatMap fun c => EnumDecl.placedAll c.1 c.2 := by
  rw [placedEnums, enumScopes, List.flatMap_cons, List.flatMap_map]

/-- What holds enums in a set of files is listed by its place. -/
theorem lists_flatMap_enumScopes (files : List FileDecl) :
    Lists (· < ·) (HoldsEnums files) (files.flatMap enumScopes) := by
  have hfile : ∀ file : FileDecl, Lists (· < ·)
      (fun place c => (place = [] ∧ c = (file.scope, file.enums)) ∨
        ∃ m : Placed MessageDecl, (file.StandsIn place m ∧ (!m.decl.isMapEntry) = true) ∧
          c = (m.scope, m.decl.enums)) file.enumScopes := by
    intro file
    -- The enums of the file itself stand before those of its messages.
    apply ((file.lists_placedMessages.filter fun m => !m.decl.isMapEntry).map _).cons []
    rintro place c ⟨m, ⟨⟨j, place', -, rfl, -⟩, -⟩, -⟩
    exact List.nil_lt_cons j place'
  apply (Lists.flatMap_cons fun file _ => hfile file).congr
  intro place c
  constructor
  · rintro ⟨i, place, file, rfl, hi, ⟨rfl, rfl⟩ | ⟨m, ⟨hm, hentry⟩, rfl⟩⟩
    · exact .file hi
    · refine .message ((declaresMessage_iff files _ m).2 ⟨i, place, file, rfl, hi, hm⟩) ?_
      simpa using hentry
  · rintro (hi | ⟨hm, hentry⟩)
    · exact ⟨_, _, _, rfl, hi, .inl ⟨rfl, rfl⟩⟩
    · obtain ⟨i, place, file, rfl, hi, hm⟩ := (declaresMessage_iff files _ _).1 hm
      exact ⟨i, place, file, rfl, hi, .inr ⟨_, ⟨hm, by rw [hentry]; rfl⟩, rfl⟩⟩

/-- The enums of a set of files are listed by their places. -/
theorem lists_flatMap_placedEnums (files : List FileDecl) :
    Lists (Prod.Lex (· < ·) (· < ·)) (DeclaresEnum files) (files.flatMap placedEnums) := by
  have hflat : files.flatMap placedEnums
      = (files.flatMap enumScopes).flatMap fun c => EnumDecl.placedAll c.1 c.2 := by
    rw [List.flatMap_assoc]
    exact List.flatMap_congr fun file _ => placedEnums_eq_flatMap file
  have hlists := (lists_flatMap_enumScopes files).flatMap Prod.mk
    (fun c _ => Lists.indices (EnumDecl.placedAll c.1 c.2))
    (fun _ _ k k' hlt => Prod.Lex.left k k' hlt) (fun place _ _ hlt => Prod.Lex.right place hlt)
  rw [hflat]
  apply hlists.congr
  rintro ⟨place, k⟩ p
  constructor
  · rintro ⟨place', k', ⟨scope, enums⟩, heq, hholds, hk⟩
    cases heq
    rw [EnumDecl.placedAll, List.getElem?_map] at hk
    obtain ⟨e, he, rfl⟩ := Option.map_eq_some_iff.1 hk
    exact .mk hholds he
  · rintro ⟨hholds, he⟩
    refine ⟨place, k, _, rfl, hholds, ?_⟩
    rw [EnumDecl.placedAll, List.getElem?_map, he, Option.map_some]

end FileDecl

end ProtoJson

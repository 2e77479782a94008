import Mathlib.Data.List.Pairwise
import ProtoJson.Document.Decode
import ProtoJson.Proofs.Result

/-!
# Reading the members of an object

`readMembers` reads the members of an object one after another and remembers the names it has read.
`MembersRead` says the same as rules, one for each way that a member is taken. Where any two members
of the record change it independently of each other, the members of an object may stand in any
order: `MembersRead.perm`.
-/

namespace ProtoJson

/-! ## Members that do not affect each other -/

namespace RecordMember

variable {σ : Type}

/-- The two members may be read in either order. -/
def Commutes (m₁ m₂ : RecordMember σ) : Prop :=
  ∀ ⦃d₁ d₂ r r'⦄, (∃ r₁, m₁.read d₁ r = .ok r₁ ∧ m₂.read d₂ r₁ = .ok r') ↔
    ∃ r₂, m₂.read d₂ r = .ok r₂ ∧ m₁.read d₁ r₂ = .ok r'

instance : Std.Symm (@Commutes σ) := ⟨fun _ _ h _ _ _ _ => (@h _ _ _ _).symm⟩

/-- Members that are put in different places may be read in either order. -/
theorem commutes_of {α β : Type} {key₁ key₂ : String} {read₁ : Decoder α}
    {read₂ : Decoder β} {set₁ : σ → α → σ} {set₂ : σ → β → σ}
    (h : ∀ r a b, set₂ (set₁ r a) b = set₁ (set₂ r b) a) :
    (RecordMember.of key₁ read₁ set₁).Commutes (.of key₂ read₂ set₂) := by
  intro d₁ d₂ r r'
  simp only [RecordMember.of, Except.map_eq_ok_iff]
  constructor
  · rintro ⟨_, ⟨a, ha, rfl⟩, b, hb, rfl⟩
    exact ⟨_, ⟨b, hb, rfl⟩, a, ha, (h r a b).symm⟩
  · rintro ⟨_, ⟨b, hb, rfl⟩, a, ha, rfl⟩
    exact ⟨_, ⟨a, ha, rfl⟩, b, hb, h r a b⟩

end RecordMember

namespace Document

theorem orMalformed_eq_ok_iff {α : Type} {x : Option α} {a : α} :
    orMalformed x = .ok a ↔ x = some a := by
  cases x <;> simp [orMalformed]

theorem ifWhole_eq_ok_iff {α : Type} {whole : Bool} {a b : α} :
    ifWhole whole a = .ok b ↔ whole = true ∧ a = b := by
  cases whole <;> simp [ifWhole]

/-! ## Reading as rules -/

variable {σ : Type}

/-- The members of an object are read where the names `seen` were read before: the record `r`
becomes `r'`. -/
inductive MembersRead (members : List (RecordMember σ)) :
    List String → List (List UInt8 × Document) → σ → σ → Prop
  | nil {seen : List String} {r : σ} : MembersRead members seen [] r r
  /-- A member that is not declared is passed over. -/
  | skip {seen : List String} {raw : List UInt8} {key : String} {d : Document}
      {rest : List (List UInt8 × Document)} {r r' : σ} (hkey : decodeString? raw = some key)
      (hm : members.find? (·.key == key) = none) (hd : d.isWhole = true)
      (h : MembersRead members seen rest r r') : MembersRead members seen ((raw, d) :: rest) r r'
  /-- A member that is declared is read, once. -/
  | read {seen : List String} {raw : List UInt8} {key : String} {d : Document}
      {rest : List (List UInt8 × Document)} {m : RecordMember σ} {r r₁ r' : σ}
      (hkey : decodeString? raw = some key) (hm : members.find? (·.key == key) = some m)
      (hseen : key ∉ seen) (hd : m.read d r = .ok r₁)
      (h : MembersRead members (key :: seen) rest r₁ r') :
      MembersRead members seen ((raw, d) :: rest) r r'

variable {members : List (RecordMember σ)}

theorem MembersRead.of_readMembers {seen : List String} {ms : List (List UInt8 × Document)}
    {r r' : σ} (h : readMembers members seen ms r = .ok r') : MembersRead members seen ms r r' := by
  induction ms generalizing seen r with
  | nil =>
    cases h
    exact .nil
  | cons x rest ih =>
    obtain ⟨raw, d⟩ := x
    rw [readMembers, Except.bind_eq_ok_iff] at h
    obtain ⟨key, hkey, h⟩ := h
    rw [orMalformed_eq_ok_iff] at hkey
    cases hm : members.find? (·.key == key) with
    | none =>
      rw [hm] at h
      obtain ⟨r₁, hr, h⟩ := Except.bind_eq_ok_iff.1 h
      obtain ⟨hd, rfl⟩ := ifWhole_eq_ok_iff.1 hr
      exact .skip hkey hm hd (ih h)
    | some m =>
      rw [hm] at h
      dsimp only at h
      split at h
      · cases h
      · next hseen =>
        obtain ⟨r₁, hd, h⟩ := Except.bind_eq_ok_iff.1 h
        exact .read hkey hm hseen hd (ih h)

theorem MembersRead.readMembers_eq {seen : List String} {ms : List (List UInt8 × Document)}
    {r r' : σ} (h : MembersRead members seen ms r r') : readMembers members seen ms r = .ok r' := by
  induction h with
  | nil => rfl
  | skip hkey hm hd _ ih =>
    rw [readMembers, orMalformed_eq_ok_iff.2 hkey, Except.bind_eq_ok_iff]
    refine ⟨_, rfl, ?_⟩
    rw [hm]
    exact Except.bind_eq_ok_iff.2 ⟨_, ifWhole_eq_ok_iff.2 ⟨hd, rfl⟩, ih⟩
  | read hkey hm hseen hd _ ih =>
    rw [readMembers, orMalformed_eq_ok_iff.2 hkey, Except.bind_eq_ok_iff]
    refine ⟨_, rfl, ?_⟩
    rw [hm]
    dsimp only
    rw [if_neg hseen]
    exact Except.bind_eq_ok_iff.2 ⟨_, hd, ih⟩

theorem readMembers_eq_ok_iff {seen : List String} {ms : List (List UInt8 × Document)} {r r' : σ} :
    readMembers members seen ms r = .ok r' ↔ MembersRead members seen ms r r' :=
  ⟨.of_readMembers, MembersRead.readMembers_eq⟩

theorem MembersRead.of_cons_of_none {seen : List String} {raw : List UInt8} {key : String}
    {d : Document} {rest : List (List UInt8 × Document)} {r r' : σ}
    (h : MembersRead members seen ((raw, d) :: rest) r r') (hkey : decodeString? raw = some key)
    (hm : members.find? (·.key == key) = none) : MembersRead members seen rest r r' := by
  cases h with
  | skip _ _ _ h => exact h
  | read hkey' hm' =>
    obtain rfl : key = _ := Option.some.inj (hkey.symm.trans hkey')
    rw [hm] at hm'
    cases hm'

theorem MembersRead.of_cons_of_some {seen : List String} {raw : List UInt8} {key : String}
    {d : Document} {rest : List (List UInt8 × Document)} {m : RecordMember σ} {r r' : σ}
    (h : MembersRead members seen ((raw, d) :: rest) r r') (hkey : decodeString? raw = some key)
    (hm : members.find? (·.key == key) = some m) :
    key ∉ seen ∧ ∃ r₁, m.read d r = .ok r₁ ∧ MembersRead members (key :: seen) rest r₁ r' := by
  cases h with
  | skip hkey' hm' =>
    obtain rfl : key = _ := Option.some.inj (hkey.symm.trans hkey')
    rw [hm] at hm'
    cases hm'
  | read hkey' hm' hseen hd h =>
    obtain rfl : key = _ := Option.some.inj (hkey.symm.trans hkey')
    obtain rfl : m = _ := Option.some.inj (hm.symm.trans hm')
    exact ⟨hseen, _, hd, h⟩

/-! ## The order of members -/

namespace MembersRead

variable {seen seen' : List String} {x y : List UInt8 × Document}
  {rest ms ms' : List (List UInt8 × Document)} {r r' : σ}

/-- Fewer names that were read before stand in nobody's way. -/
theorem mono (h : MembersRead members seen ms r r') (hsub : seen' ⊆ seen) :
    MembersRead members seen' ms r r' := by
  induction h generalizing seen' with
  | nil => exact .nil
  | skip hkey hm hd _ ih => exact .skip hkey hm hd (ih hsub)
  | read hkey hm hseen hd _ ih =>
    exact .read hkey hm (fun hk => hseen (hsub hk)) hd (ih (List.cons_subset_cons _ hsub))

/-- The first two members may be read in either order. -/
theorem swap (hc : members.Pairwise RecordMember.Commutes)
    (h : MembersRead members seen (x :: y :: rest) r r') :
    MembersRead members seen (y :: x :: rest) r r' := by
  cases h with
  | skip hkey hm hd h =>
    cases h with
    | skip hkey' hm' hd' h => exact .skip hkey' hm' hd' (.skip hkey hm hd h)
    | read hkey' hm' hseen' hd' h => exact .read hkey' hm' hseen' hd' (.skip hkey hm hd h)
  | @read _ _ key₁ _ _ m₁ _ _ _ hkey hm hseen hd h =>
    cases h with
    | skip hkey' hm' hd' h => exact .skip hkey' hm' hd' (.read hkey hm hseen hd h)
    | @read _ _ key₂ _ _ m₂ _ _ _ hkey' hm' hseen' hd' h =>
      rw [List.mem_cons, not_or] at hseen'
      -- The second name is not the first, which has been seen: these are two members.
      have hne : m₁ ≠ m₂ := by
        rintro rfl
        have h₁ : m₁.key = key₁ := by simpa using List.find?_some hm
        have h₂ : m₁.key = key₂ := by simpa using List.find?_some hm'
        exact hseen'.1 (h₂.symm.trans h₁)
      have hcomm : m₁.Commutes m₂ := hc.forall (List.mem_of_find?_eq_some hm)
        (List.mem_of_find?_eq_some hm') hne
      obtain ⟨r₂, hd', hd⟩ := hcomm.1 ⟨_, hd, hd'⟩
      refine .read hkey' hm' hseen'.2 hd' (.read hkey hm ?_ hd (h.mono ?_))
      · rw [List.mem_cons, not_or]
        exact ⟨Ne.symm hseen'.1, hseen⟩
      · exact fun k hk => (List.Perm.swap key₂ key₁ seen).subset hk

/-- **The members of an object may stand in any order.** -/
theorem perm (hc : members.Pairwise RecordMember.Commutes) (hp : ms.Perm ms')
    (h : MembersRead members seen ms r r') : MembersRead members seen ms' r r' := by
  induction hp generalizing seen r with
  | nil => exact h
  | cons x _ ih =>
    cases h with
    | skip hkey hm hd h => exact .skip hkey hm hd (ih h)
    | read hkey hm hseen hd h => exact .read hkey hm hseen hd (ih h)
  | swap x y l => exact h.swap hc
  | trans _ _ ih₁ ih₂ => exact ih₂ (ih₁ h)

end MembersRead

end Document

end ProtoJson

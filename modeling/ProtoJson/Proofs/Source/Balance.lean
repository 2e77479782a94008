import ProtoJson.Source.File

/-!
# Levels of generated source

What is generated for an item ends at the level of indentation where it begins, and nothing in it
stands further out. So the body of an item stays within it.
-/

namespace ProtoJson

namespace LayoutStep

/-! ## Steps -/

@[simp] theorem levelAfter?_nil (level : Nat) : levelAfter? level [] = some level := rfl

@[simp] theorem levelAfter?_line (level : Nat) (t : String) (rest : List LayoutStep) :
    levelAfter? level (line t :: rest) = levelAfter? level rest := rfl

@[simp] theorem levelAfter?_blank (level : Nat) (rest : List LayoutStep) :
    levelAfter? level (blank :: rest) = levelAfter? level rest := rfl

@[simp] theorem levelAfter?_enter (level : Nat) (t : String) (rest : List LayoutStep) :
    levelAfter? level (enter t :: rest) = levelAfter? (level + 1) rest := rfl

@[simp] theorem levelAfter?_leave (level : Nat) (t : String) (rest : List LayoutStep) :
    levelAfter? (level + 1) (leave t :: rest) = levelAfter? level rest := rfl

@[simp] theorem levelAfter?_turn (level : Nat) (t : String) (rest : List LayoutStep) :
    levelAfter? (level + 1) (turn t :: rest) = levelAfter? (level + 1) rest := rfl

@[simp] theorem levelAfter?_append (level : Nat) (xs ys : List LayoutStep) :
    levelAfter? level (xs ++ ys) = (levelAfter? level xs).bind fun l => levelAfter? l ys := by
  induction xs generalizing level with
  | nil => rfl
  | cons step xs ih =>
    cases step with
    | leave t =>
      simp only [List.cons_append, levelAfter?]
      split
      · rfl
      · exact ih _
    | turn t =>
      simp only [List.cons_append, levelAfter?]
      split
      · rfl
      · exact ih _
    | _ => exact ih _

/-- Steps are laid out at the level that those in front of them leave. -/
theorem lines_append {level after : Nat} {xs : List LayoutStep}
    (h : levelAfter? level xs = some after) (ys : List LayoutStep) :
    lines level (xs ++ ys) = lines level xs ++ lines after ys := by
  induction xs generalizing level with
  | nil =>
    cases h
    rfl
  | cons step xs ih =>
    cases step with
    | leave t =>
      rw [levelAfter?] at h
      split at h
      · cases h
      · exact congrArg (_ :: ·) (ih h)
    | turn t =>
      rw [levelAfter?] at h
      split at h
      · cases h
      · next hlevel =>
        rw [← Nat.sub_add_cancel (Nat.pos_of_ne_zero hlevel)] at h
        exact congrArg (_ :: ·) (ih h)
    | _ => exact congrArg (_ :: ·) (ih h)

@[simp] theorem levelAfter?_block (level : Nat) (heading : String) (body : List LayoutStep) :
    levelAfter? level (block heading body)
      = (levelAfter? (level + 1) body).bind fun l => levelAfter? l [leave "\x7d"] := by
  rw [block, levelAfter?_enter, levelAfter?_append]

@[simp] theorem levelAfter?_ite (level : Nat) (c : Prop) [Decidable c] (xs ys : List LayoutStep) :
    levelAfter? level (if c then xs else ys)
      = if c then levelAfter? level xs else levelAfter? level ys :=
  apply_ite _ c xs ys

@[simp] theorem levelAfter?_flatMap (level : Nat) {α : Type} (as : List α)
    {g : α → List LayoutStep} (h : ∀ a, levelAfter? level (g a) = some level) :
    levelAfter? level (as.flatMap g) = some level := by
  induction as with
  | nil => rfl
  | cons a as ih => rw [List.flatMap_cons, levelAfter?_append, h, Option.bind_some, ih]

@[simp] theorem levelAfter?_map_line (level : Nat) {α : Type} (as : List α) (g : α → String) :
    levelAfter? level (as.map fun a => line (g a)) = some level := by
  induction as with
  | nil => rfl
  | cons a as ih => exact ih

end LayoutStep

open LayoutStep

variable (level : Nat) (c : SourceContext)

/-! ## Enums -/

namespace EnumType

@[simp] theorem levelAfter?_variantSteps (isDefault : Bool) (v : EnumValue) :
    levelAfter? level (variantSteps isDefault v) = some level := by
  simp [variantSteps]

@[simp] theorem levelAfter?_lookupSteps (heading subject : String) (arms : List (String × String)) :
    levelAfter? level (lookupSteps heading subject arms) = some level := by
  simp [lookupSteps]

@[simp] theorem levelAfter?_source (e : EnumType) :
    levelAfter? level (e.source c) = some level := by
  unfold source
  split <;> simp

end EnumType

/-! ## Messages -/

namespace MessageType

variable (m : MessageType) (f : Field) (o : Oneof)

@[simp] theorem levelAfter?_typeSteps : levelAfter? level (m.typeSteps c) = some level := by
  simp [typeSteps]

@[simp] theorem levelAfter?_recycleArms (fs : List Field) :
    levelAfter? level (fs.map (recycleArm c)) = some level :=
  levelAfter?_map_line level fs _

@[simp] theorem levelAfter?_recycleOneof (members : List Field) :
    levelAfter? level (recycleOneof c members) = some level := by
  unfold recycleOneof
  split
  · rfl
  · simp [recycleArm]

@[simp] theorem levelAfter?_oneofSteps (index : Nat) :
    levelAfter? level (m.oneofSteps c o index) = some level := by
  simp [oneofSteps]

@[simp] theorem levelAfter?_emptinessSteps : levelAfter? level (emptinessSteps f) = some level := by
  simp [emptinessSteps]

@[simp] theorem levelAfter?_functionSteps :
    levelAfter? level (m.functionSteps c) = some level := by
  simp [functionSteps]

/-! ### Writing -/

@[simp] theorem levelAfter?_writeField : levelAfter? level (writeField c f) = some level := by
  simp only [writeField, writeKey, writeComma, writeClose]
  split <;> simp

@[simp] theorem levelAfter?_writeOneof (index : Nat) :
    levelAfter? level (m.writeOneof c o index) = some level := by
  simp [writeOneof, writeKey, writeComma]

@[simp] theorem levelAfter?_writeSteps : levelAfter? level (m.writeSteps c) = some level := by
  simp [writeSteps, writeClose]

/-! ### Giving back -/

@[simp] theorem levelAfter?_recycleOptional (name taken : String) :
    levelAfter? level (recycleOptional c f name taken) = some level := by
  simp [recycleOptional]

@[simp] theorem levelAfter?_recycleEach (taken : String) :
    levelAfter? level (recycleEach c f taken) = some level := by
  simp [recycleEach]

@[simp] theorem levelAfter?_recycleField : levelAfter? level (recycleField c f) = some level := by
  unfold recycleField
  split <;> simp

@[simp] theorem levelAfter?_recycleSteps :
    levelAfter? level (m.recycleSteps c) = some level := by
  simp [recycleSteps]

/-! ### Reading -/

@[simp] theorem levelAfter?_readSequence (opening closing : String) (item : List LayoutStep) :
    levelAfter? level (readSequence opening closing item)
      = (levelAfter? (level + 1) item).bind fun l => levelAfter? l [leave "\x7d"] := by
  cases h : levelAfter? (level + 1) item <;> simp [readSequence, announce, h]

@[simp] theorem levelAfter?_readList : levelAfter? level (readList c f) = some level := by
  simp [readList]

@[simp] theorem levelAfter?_readMap (key : KeyKind) :
    levelAfter? level (readMap c f key) = some level := by
  simp [readMap, announce]

@[simp] theorem levelAfter?_readMember : levelAfter? level (readMember c o f) = some level := by
  simp [readMember]

@[simp] theorem levelAfter?_readField : levelAfter? level (readField c f) = some level := by
  unfold readField
  split <;> simp

@[simp] theorem levelAfter?_readArm : levelAfter? level (m.readArm c f) = some level := by
  unfold readArm
  split
  · simp
  · next index _ => cases m.oneofs[index]? <;> simp

@[simp] theorem levelAfter?_readItem : levelAfter? level (m.readItem c) = some level := by
  simp [readItem, announce]

@[simp] theorem levelAfter?_readSteps : levelAfter? level (m.readSteps c) = some level := by
  simp [readSteps]

/-! ### All of it -/

@[simp] theorem levelAfter?_codecSteps : levelAfter? level (m.codecSteps c) = some level := by
  simp [codecSteps]

@[simp] theorem levelAfter?_source : levelAfter? level (m.source c) = some level := by
  simp [source]

end MessageType

/-- The source of a schema ends outside all items. -/
theorem Schema.levelAfter?_sourceSteps (schema : Schema) (options : SourceOptions) :
    levelAfter? level (schema.sourceSteps options) = some level := by
  simp [sourceSteps, poolSteps]

end ProtoJson

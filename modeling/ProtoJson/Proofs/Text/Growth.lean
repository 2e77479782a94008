import ProtoJson.Proofs.Reader.EscapedBytes

/-!
# Growth of a buffer

Every operation on a buffer as what it does to the bytes that the buffer holds: making room, putting
bytes where there is room, and taking bytes away. Whatever the operations and the room at the
beginning, there is room for all bytes that are put, and the capacity changes only where room is
made, to twice the length that is needed. What the buffer holds does not depend on its room.
-/

namespace ProtoJson.Buffer

open Grammar

/-! ## Pieces -/

/-- Bytes in the pieces in which they are handed over. -/
structure Pieces (bytes : List UInt8) where
  parts : List (List UInt8)
  flatten_eq : parts.flatten = bytes

/-- Bytes that are handed over at once. -/
def Pieces.whole (bytes : List UInt8) : Pieces bytes := ⟨[bytes], by simp⟩

/-- Appends pieces one after another. -/
def writeAll (b : Buffer) (pieces : List (List UInt8)) : Buffer := pieces.foldl write b

theorem toList_writeAll (b : Buffer) (pieces : List (List UInt8)) :
    (b.writeAll pieces).toList = b.toList ++ pieces.flatten := by
  induction pieces generalizing b with
  | nil => simp [writeAll]
  | cons p ps ih =>
    rw [writeAll, List.foldl_cons, ← writeAll, ih, toList_write, List.flatten_cons,
      List.append_assoc]

/-! ## Accesses -/

/-- An access to the bytes of a buffer. -/
inductive Access where
  /-- Makes room for `n` more bytes. -/
  | reserve (n : Nat)
  /-- Puts bytes at the end. -/
  | extend (bytes : List UInt8)
  | dropComma
  | reset

namespace Access

/-- What an access does. -/
def run (b : Buffer) : Access → Buffer
  | reserve n => b.reserve n
  | extend bytes => b.append bytes
  | dropComma => b.dropComma
  | reset => b.reset

/-- An access as the buffer promises it: bytes are put only where there is room for them, and the
capacity changes only to twice the length that is needed, where it is too small. -/
structure IsSound (b : Buffer) (a : Access) : Prop where
  room : ∀ bytes, a = extend bytes → b.size + bytes.length ≤ b.capacity
  growth : (a.run b).capacity = b.capacity ∨
    ∃ n, a = reserve n ∧ b.capacity < b.size + n ∧ (a.run b).capacity = 2 * (b.size + n)
  capacity_le : b.capacity ≤ (a.run b).capacity

/-- What one access after another does. -/
def runAll (b : Buffer) (as : List Access) : Buffer := as.foldl run b

/-- Every access of a run is sound where it comes. -/
def AllSound (b : Buffer) : List Access → Prop
  | [] => True
  | a :: as => IsSound b a ∧ AllSound (a.run b) as

/-- Appends bytes for which there may be no room yet. -/
def put (bytes : List UInt8) : List Access := [reserve bytes.length, extend bytes]

variable {b : Buffer}

theorem runAll_append (as as' : List Access) :
    runAll b (as ++ as') = runAll (runAll b as) as' := List.foldl_append

theorem runAll_put (bytes : List UInt8) : runAll b (put bytes) = b.write bytes := rfl

theorem runAll_pieces (pieces : List (List UInt8)) :
    runAll b (pieces.flatMap put) = b.writeAll pieces := by
  induction pieces generalizing b with
  | nil => rfl
  | cons p ps ih => rw [List.flatMap_cons, runAll_append, runAll_put, ih, writeAll, writeAll,
      List.foldl_cons]

theorem allSound_append {as as' : List Access} :
    AllSound b (as ++ as') ↔ AllSound b as ∧ AllSound (runAll b as) as' := by
  induction as generalizing b with
  | nil => simp [AllSound, runAll]
  | cons a as ih =>
    rw [List.cons_append, AllSound, AllSound, ih, and_assoc]
    rfl

/-- Where bytes are not put, an access is sound whatever room there is. -/
theorem isSound_of_ne_extend {a : Access} (h : ∀ bytes, a ≠ extend bytes) : IsSound b a := by
  -- An access that keeps the capacity is sound; only making room may change it.
  have hkeep : (a.run b).capacity = b.capacity → IsSound b a := fun heq =>
    ⟨fun bytes ha => absurd ha (h bytes), .inl heq, heq.ge⟩
  cases a with
  | reserve n =>
    by_cases hroom : b.size + n ≤ b.capacity
    · refine hkeep ?_
      rw [run, Buffer.reserve, if_pos hroom]
    · have hgrown : (run b (reserve n)).capacity = 2 * (b.size + n) := by
        rw [run, Buffer.reserve, if_neg hroom]
      refine ⟨fun bytes ha => absurd ha (h bytes), .inr ⟨n, rfl, by omega, hgrown⟩, ?_⟩
      omega
  | extend bytes => exact absurd rfl (h bytes)
  | dropComma =>
    refine hkeep ?_
    rw [run, Buffer.dropComma]
    split <;> rfl
  | reset => exact hkeep rfl

theorem isSound_extend {bytes : List UInt8} (h : b.size + bytes.length ≤ b.capacity) :
    IsSound b (extend bytes) where
  room bytes' heq := by
    cases heq
    exact h
  growth := .inl rfl
  capacity_le := le_refl _

theorem le_capacity_reserve (n : Nat) : b.size + n ≤ (b.reserve n).capacity := by
  rw [Buffer.reserve]
  split
  · assumption
  · dsimp only
    omega

@[simp] theorem size_reserve (n : Nat) : (b.reserve n).size = b.size := by
  rw [Buffer.reserve]
  split <;> rfl

theorem allSound_put (bytes : List UInt8) : AllSound b (put bytes) := by
  refine ⟨isSound_of_ne_extend (by simp), isSound_extend ?_, trivial⟩
  have hroom := le_capacity_reserve (b := b) bytes.length
  rwa [run, size_reserve]

theorem allSound_flatMap {α : Type} {as : List α} {g : α → List Access}
    (h : ∀ (b : Buffer) (a : α), AllSound b (g a)) : AllSound b (as.flatMap g) := by
  induction as generalizing b with
  | nil => trivial
  | cons a as ih =>
    rw [List.flatMap_cons, allSound_append]
    exact ⟨h b a, ih⟩

end Access

/-! ## Operations -/

/-- The text of a key that is formatted. A string key is not. -/
def formattedKey : MapKey → List UInt8
  | .string _ => []
  | .bool v => Utf8.ofString (if v then "true" else "false")
  | .integer v => Utf8.encode (decimalInt v)

/-- An operation on a buffer. Numbers and base64 are handed over in any pieces. -/
inductive Operation where
  | write (bytes : List UInt8)
  | byte (byte : UInt8)
  | raw (s : String)
  | bool (v : Bool)
  | integer (v : Int) (pieces : Pieces (Utf8.encode (decimalInt v)))
  | binary {fmt : BinaryFormat} (v : Binary fmt) (pieces : Pieces (Utf8.encode v.text))
  | base64 (bytes : List UInt8) (pieces : Pieces (Base64.encode bytes))
  | escaped (s : String)
  | escapedBytes (bytes : List UInt8)
  | quoted (s : String)
  /-- A key with its colon. -/
  | member (key : MapKey) (pieces : Pieces (formattedKey key))
  | dropComma
  | reset

/-- The pieces in which `writeRuns` appends a text. -/
def runPieces (run : List UInt8) : List UInt8 → List (List UInt8)
  | [] => [run.reverse]
  | 0xE2 :: 0x80 :: 0xA8 :: r =>
    run.reverse :: Utf8.ofString "\\u202" :: [ascii '8'] :: runPieces [] r
  | 0xE2 :: 0x80 :: 0xA9 :: r =>
    run.reverse :: Utf8.ofString "\\u202" :: [ascii '9'] :: runPieces [] r
  | x :: r =>
    if x < 0x80 && !Escape.isPlainByte x then
      run.reverse :: Escape.escapeByte x :: runPieces [] r
    else runPieces (x :: run) r

/-- The accesses of `writeEscapedChars`. -/
def escapedAccesses (cs : List Char) : List Access :=
  .reserve (Utf8.encode cs).length :: (runPieces [] (Utf8.encode cs)).flatMap Access.put

/-- The accesses of `writePieces`. -/
def pieceAccesses (run : List Char) : List Utf8.Piece → List Access
  | [] => escapedAccesses run.reverse
  | .scalar c :: ps => pieceAccesses (c :: run) ps
  | .malformed bytes :: ps =>
    escapedAccesses run.reverse ++ (bytes.flatMap fun _ => Access.put (Utf8.ofString "\\ufffd")) ++
      pieceAccesses [] ps

namespace Operation

/-- What an operation does. -/
def run (b : Buffer) : Operation → Buffer
  | write bytes => b.write bytes
  | byte x => b.writeByte x
  | raw s => b.writeRaw s
  | bool v => b.writeBool v
  | integer _ pieces => b.writeAll pieces.parts
  | binary _ pieces => b.writeAll pieces.parts
  | base64 bytes pieces =>
    let b := b.reserve (Base64.encodedLength bytes.length + 2)
    ((b.append [ascii '"']).writeAll pieces.parts).append [ascii '"']
  | escaped s => b.writeEscaped s
  | escapedBytes bytes => b.writeEscapedBytes bytes
  | quoted s => b.writeQuoted s
  | member (.string s) _ => (MapKey.string s).writeMember b
  | member (.bool _) pieces | member (.integer _) pieces =>
    (((b.writeByte (ascii '"')).writeAll pieces.parts).writeByte (ascii '"')).writeByte (ascii ':')
  | dropComma => b.dropComma
  | reset => b.reset

/-- The accesses of an operation. -/
def accesses : Operation → List Access
  | write bytes => Access.put bytes
  | byte x => Access.put [x]
  | raw s => Access.put (Utf8.ofString s)
  | bool v => Access.put (Utf8.ofString (if v then "true" else "false"))
  | integer _ pieces => pieces.parts.flatMap Access.put
  | binary _ pieces => pieces.parts.flatMap Access.put
  | base64 bytes pieces =>
    [.reserve (Base64.encodedLength bytes.length + 2), .extend [ascii '"']] ++
      pieces.parts.flatMap Access.put ++ [.extend [ascii '"']]
  | escaped s => escapedAccesses s.toList
  | escapedBytes bytes => pieceAccesses [] (Utf8.pieces bytes)
  | quoted s => Access.put [ascii '"'] ++ escapedAccesses s.toList ++ Access.put [ascii '"']
  | member (.string s) _ =>
    Access.put [ascii '"'] ++ escapedAccesses s.toList ++ Access.put [ascii '"'] ++
      Access.put [ascii ':']
  | member (.bool _) pieces | member (.integer _) pieces =>
    Access.put [ascii '"'] ++ pieces.parts.flatMap Access.put ++ Access.put [ascii '"'] ++
      Access.put [ascii ':']
  | dropComma => [.dropComma]
  | reset => [.reset]

/-- What an operation makes of the bytes that a buffer holds. All operations but two append. -/
def content (held : List UInt8) : Operation → List UInt8
  | write bytes => held ++ bytes
  | byte x => held ++ [x]
  | raw s => held ++ Utf8.ofString s
  | bool v => held ++ Utf8.ofString (if v then "true" else "false")
  | integer v _ => held ++ Utf8.encode (decimalInt v)
  | binary v _ => held ++ Utf8.encode v.text
  | base64 bytes _ => held ++ ascii '"' :: (Base64.encode bytes ++ [ascii '"'])
  | escaped s => held ++ Utf8.encode (Escape.escape s.toList)
  | escapedBytes bytes => held ++ Quotation.raw (StringLiteral.ofBytes bytes)
  | quoted s => held ++ Quotation.bytes (StringLiteral.ofString s)
  | member (.string s) _ => held ++ (Quotation.bytes (StringLiteral.ofString s) ++ [ascii ':'])
  | member key _ => held ++ ascii '"' :: (formattedKey key ++ [ascii '"', ascii ':'])
  | dropComma => if 2 ≤ held.length ∧ held.getLast? = some (ascii ',') then held.dropLast else held
  | reset => []

end Operation

/-! ### Texts in one piece -/

/-- With every text in one piece, the operations are the writers. -/
theorem run_whole (b : Buffer) :
    (∀ v, (Operation.integer v (.whole _)).run b = b.writeInteger v) ∧
    (∀ (fmt : BinaryFormat) (v : Binary fmt),
      (Operation.binary v (.whole _)).run b = b.writeBinary v) ∧
    (∀ bytes, (Operation.base64 bytes (.whole _)).run b = b.writeBase64 bytes) ∧
    ∀ key, (Operation.member key (.whole _)).run b = key.writeMember b := by
  refine ⟨fun v => rfl, fun fmt v => rfl, fun bytes => rfl, fun key => ?_⟩
  cases key <;> rfl

/-! ### Operations as accesses -/

theorem writeAll_cons (b : Buffer) (p : List UInt8) (ps : List (List UInt8)) :
    b.writeAll (p :: ps) = (b.write p).writeAll ps := rfl

theorem writeRuns_eq_writeAll (b : Buffer) (held bytes : List UInt8) :
    b.writeRuns held bytes = b.writeAll (runPieces held bytes) := by
  fun_induction writeRuns b held bytes with
  | case1 b held => rfl
  | case2 b held r ih | case3 b held r ih =>
    rw [ih, runPieces, writeAll_cons, writeAll_cons, writeAll_cons, writeByte, writeRaw, writeChars,
      Utf8.ofString]
  | case4 b held x r h₁ h₂ hescape ih =>
    rw [ih, runPieces, if_pos hescape, writeAll_cons, writeAll_cons]
    · exact h₁
    · exact h₂
  | case5 b held x r h₁ h₂ hplain ih =>
    rw [ih, runPieces, if_neg hplain]
    · exact h₁
    · exact h₂

theorem runAll_escapedAccesses (b : Buffer) (cs : List Char) :
    Access.runAll b (escapedAccesses cs) = b.writeEscapedChars cs := by
  rw [writeEscapedChars, writeRuns_eq_writeAll, ← Access.runAll_pieces]
  rfl

theorem runAll_pieceAccesses (b : Buffer) (held : List Char) (ps : List Utf8.Piece) :
    Access.runAll b (pieceAccesses held ps) = b.writePieces held ps := by
  have hreplace : ∀ (bytes : List UInt8) (b : Buffer),
      Access.runAll b (bytes.flatMap fun _ => Access.put (Utf8.ofString "\\ufffd"))
        = bytes.foldl (fun b _ => b.writeRaw "\\ufffd") b := by
    intro bytes
    induction bytes with
    | nil => exact fun b => rfl
    | cons x bytes ih =>
      intro b
      rw [List.flatMap_cons, Access.runAll_append, Access.runAll_put, ih, List.foldl_cons]
      rfl
  fun_induction writePieces b held ps with
  | case1 b held => exact runAll_escapedAccesses b _
  | case2 b held c ps ih => exact ih
  | case3 b held bytes ps ih =>
    rw [pieceAccesses, Access.runAll_append, Access.runAll_append, runAll_escapedAccesses, hreplace,
      ih]

theorem runAll_accesses (b : Buffer) (op : Operation) :
    Access.runAll b op.accesses = op.run b := by
  have hquoted : ∀ s : String, Access.runAll b (Access.put [ascii '"'] ++ escapedAccesses s.toList
      ++ Access.put [ascii '"']) = b.writeQuoted s := by
    intro s
    rw [Access.runAll_append, Access.runAll_append, runAll_escapedAccesses]
    rfl
  cases op with
  | integer v pieces => exact Access.runAll_pieces pieces.parts
  | binary v pieces => exact Access.runAll_pieces pieces.parts
  | base64 bytes pieces =>
    rw [Operation.accesses, Access.runAll_append, Access.runAll_append, Access.runAll_pieces]
    rfl
  | escaped s => exact runAll_escapedAccesses b s.toList
  | escapedBytes bytes => exact runAll_pieceAccesses b [] _
  | quoted s => exact hquoted s
  | member key pieces =>
    cases key with
    | string s =>
      rw [Operation.accesses, Access.runAll_append, hquoted]
      rfl
    | bool v | integer v =>
      rw [Operation.accesses, Access.runAll_append, Access.runAll_append, Access.runAll_append,
        Access.runAll_pieces]
      rfl
  | _ => rfl

/-! ### Room -/

theorem allSound_escapedAccesses (b : Buffer) (cs : List Char) :
    Access.AllSound b (escapedAccesses cs) :=
  ⟨Access.isSound_of_ne_extend (by simp), Access.allSound_flatMap fun b p => Access.allSound_put p⟩

theorem allSound_pieceAccesses (b : Buffer) (held : List Char) (ps : List Utf8.Piece) :
    Access.AllSound b (pieceAccesses held ps) := by
  induction ps generalizing b held with
  | nil => exact allSound_escapedAccesses b _
  | cons p ps ih =>
    cases p with
    | scalar c => exact ih b _
    | malformed bytes =>
      rw [pieceAccesses, Access.allSound_append, Access.allSound_append]
      have hreplaced := fun (b : Buffer) (_ : UInt8) =>
        Access.allSound_put (b := b) (Utf8.ofString "\\ufffd")
      exact ⟨⟨allSound_escapedAccesses b _, Access.allSound_flatMap hreplaced⟩, ih _ _⟩

/-! ### Base64 -/

/-- Four characters are written for each three bytes that have begun. -/
theorem length_encode (bytes : List UInt8) :
    (Base64.encode bytes).length = Base64.encodedLength bytes.length := by
  fun_induction Base64.encode bytes with
  | case1 x y z r ih =>
    simp only [List.length_cons, ih, Base64.encodedLength]
    omega
  | case2 | case3 | case4 => simp [Base64.encodedLength]

theorem append_append (b : Buffer) (xs ys : List UInt8) :
    (b.append xs).append ys = b.append (xs ++ ys) := by
  have hbytes : b.bytes ++ xs ++ ys = b.bytes ++ (xs ++ ys) := by
    rw [← Array.toList_inj]
    simp
  rw [append, append, append, hbytes]

theorem size_append (b : Buffer) (bytes : List UInt8) :
    (b.append bytes).size = b.size + bytes.length := by
  rw [size, size, ← Array.length_toList, ← Array.length_toList, ← List.length_append]
  exact congrArg List.length (toList_append b bytes)

theorem capacity_append (b : Buffer) (bytes : List UInt8) :
    (b.append bytes).capacity = b.capacity := rfl

/-- Where there is room for all pieces, none of them makes more. -/
theorem writeAll_of_room {b : Buffer} {pieces : List (List UInt8)}
    (h : b.size + pieces.flatten.length ≤ b.capacity) :
    b.writeAll pieces = b.append pieces.flatten := by
  induction pieces generalizing b with
  | nil => simp [writeAll, append]
  | cons p ps ih =>
    rw [List.flatten_cons, List.length_append] at h
    -- The first piece finds room and leaves room for the others.
    have hwrite : b.write p = b.append p := by
      rw [write, Buffer.reserve, if_pos (by omega)]
    have hroom : (b.append p).size + ps.flatten.length ≤ (b.append p).capacity := by
      rw [size_append, capacity_append]
      omega
    rw [writeAll_cons, hwrite, ih hroom, append_append, List.flatten_cons]

/-- A buffer in which room has been made for bytes in base64. -/
theorem room_base64 (b : Buffer) (bytes : List UInt8) :
    (b.reserve (Base64.encodedLength bytes.length + 2)).size + (Base64.encode bytes).length + 2
      ≤ (b.reserve (Base64.encodedLength bytes.length + 2)).capacity := by
  have hroom := Access.le_capacity_reserve (b := b) (Base64.encodedLength bytes.length + 2)
  rw [length_encode, Access.size_reserve]
  omega

/-- The quote in front and the digits fit into the room that was made, in whatever pieces. -/
theorem append_digits (b : Buffer) {bytes : List UInt8} (pieces : Pieces (Base64.encode bytes)) :
    ((b.reserve (Base64.encodedLength bytes.length + 2)).append [ascii '"']).writeAll pieces.parts
      = (b.reserve (Base64.encodedLength bytes.length + 2)).append
        (ascii '"' :: Base64.encode bytes) := by
  have hroom := room_base64 b bytes
  rw [writeAll_of_room, append_append, pieces.flatten_eq, List.singleton_append]
  rw [pieces.flatten_eq, size_append, capacity_append, List.length_singleton]
  omega

/-- Room is made once, and it is used up. -/
theorem run_base64 (b : Buffer) {bytes : List UInt8} (pieces : Pieces (Base64.encode bytes)) :
    (Operation.base64 bytes pieces).run b
      = (b.reserve (Base64.encodedLength bytes.length + 2)).append
        (ascii '"' :: (Base64.encode bytes ++ [ascii '"'])) := by
  rw [Operation.run, append_digits, append_append, List.cons_append]

theorem allSound_base64 (b : Buffer) {bytes : List UInt8} (pieces : Pieces (Base64.encode bytes)) :
    Access.AllSound b (Operation.base64 bytes pieces).accesses := by
  have hroom := room_base64 b bytes
  have hrun : Access.runAll b ([.reserve (Base64.encodedLength bytes.length + 2),
      .extend [ascii '"']] ++ pieces.parts.flatMap Access.put)
        = (b.reserve (Base64.encodedLength bytes.length + 2)).append
          (ascii '"' :: Base64.encode bytes) := by
    rw [Access.runAll_append, Access.runAll_pieces, ← append_digits b pieces]
    rfl
  -- The quotes are put without making room, so each needs what is left at its place.
  rw [Operation.accesses, Access.allSound_append, Access.allSound_append, hrun]
  refine ⟨⟨⟨Access.isSound_of_ne_extend (by simp), Access.isSound_extend ?_, trivial⟩,
    Access.allSound_flatMap fun b p => Access.allSound_put p⟩, Access.isSound_extend ?_, trivial⟩
  · rw [Access.run, List.length_singleton]
    omega
  · rw [size_append, capacity_append, List.length_cons, List.length_singleton]
    omega

/-! ## Runs of operations -/

theorem allSound_accesses (b : Buffer) (op : Operation) : Access.AllSound b op.accesses := by
  have hput := fun (b : Buffer) (bytes : List UInt8) => Access.allSound_put (b := b) bytes
  have hpieces : ∀ (b : Buffer) (ps : List (List UInt8)),
      Access.AllSound b (ps.flatMap Access.put) := fun b ps => Access.allSound_flatMap hput
  cases op with
  | integer v pieces => exact hpieces b pieces.parts
  | binary v pieces => exact hpieces b pieces.parts
  | base64 bytes pieces => exact allSound_base64 b pieces
  | escaped s => exact allSound_escapedAccesses b _
  | escapedBytes bytes => exact allSound_pieceAccesses b [] _
  | quoted s =>
    rw [Operation.accesses, Access.allSound_append, Access.allSound_append]
    exact ⟨⟨hput b _, allSound_escapedAccesses _ _⟩, hput _ _⟩
  | member key pieces =>
    cases key with
    | string s =>
      rw [Operation.accesses, Access.allSound_append, Access.allSound_append,
        Access.allSound_append]
      exact ⟨⟨⟨hput b _, allSound_escapedAccesses _ _⟩, hput _ _⟩, hput _ _⟩
    | bool v | integer v =>
      rw [Operation.accesses, Access.allSound_append, Access.allSound_append,
        Access.allSound_append]
      exact ⟨⟨⟨hput b _, hpieces _ _⟩, hput _ _⟩, hput _ _⟩
  | dropComma | reset => exact ⟨Access.isSound_of_ne_extend (by simp), trivial⟩
  | _ => exact hput b _

/-- What a buffer holds after an operation does not depend on its room. -/
theorem toList_run (b : Buffer) (op : Operation) : (op.run b).toList = op.content b.toList := by
  cases op with
  | write bytes => exact toList_write b bytes
  | byte x => exact toList_writeByte b x
  | raw s => exact toList_writeChars b s.toList
  | bool v => exact toList_writeChars b _
  | integer v pieces => rw [Operation.run, toList_writeAll, pieces.flatten_eq, Operation.content]
  | binary v pieces => rw [Operation.run, toList_writeAll, pieces.flatten_eq, Operation.content]
  | base64 bytes pieces => rw [run_base64, toList_append, toList_reserve, Operation.content]
  | escaped s => exact toList_writeEscaped b s
  | escapedBytes bytes => exact toList_writeEscapedBytes b bytes
  | quoted s => exact toList_writeQuoted b s
  | member key pieces =>
    cases key with
    | string s =>
      rw [Operation.run, MapKey.writeMember, MapKey.write, toList_writeByte, toList_writeQuoted,
        Operation.content, List.append_assoc]
    | bool v | integer v =>
      simp [Operation.run, Operation.content, toList_writeAll, pieces.flatten_eq]
  | dropComma => exact toList_dropComma b
  | reset => rfl

/-- Each operation appends or takes away in turn. -/
theorem toList_foldl_run (b : Buffer) (ops : List Operation) :
    (ops.foldl Operation.run b).toList = ops.foldl Operation.content b.toList := by
  induction ops generalizing b with
  | nil => rfl
  | cons op ops ih => rw [List.foldl_cons, ih, toList_run, List.foldl_cons]

/-- A run of operations is the run of all their accesses. -/
theorem foldl_run_eq_runAll (b : Buffer) (ops : List Operation) :
    ops.foldl Operation.run b = Access.runAll b (ops.flatMap Operation.accesses) := by
  induction ops generalizing b with
  | nil => rfl
  | cons op ops ih =>
    rw [List.foldl_cons, List.flatMap_cons, Access.runAll_append, runAll_accesses, ih]

/-- However much room there is at the beginning, and whatever operations follow: the buffer holds
what they write, bytes are put only where there is room for them, and the capacity changes only
where room is made, to twice the length that is needed. A text in base64 makes room once, for four
bytes for each three that have begun and two quotes, and fills it, in whatever pieces it comes. -/
theorem grows_by_doubling (capacity : Nat) (ops : List Operation) :
    (ops.foldl Operation.run (withCapacity capacity)).toList = ops.foldl Operation.content [] ∧
    ops.foldl Operation.run (withCapacity capacity)
      = Access.runAll (withCapacity capacity) (ops.flatMap Operation.accesses) ∧
    Access.AllSound (withCapacity capacity) (ops.flatMap Operation.accesses) ∧
    ∀ (b : Buffer) (bytes : List UInt8) (pieces : Pieces (Base64.encode bytes)),
      (ascii '"' :: (Base64.encode bytes ++ [ascii '"'])).length
        = 4 * ((bytes.length + 2) / 3) + 2 ∧
      (Operation.base64 bytes pieces).run b = (b.reserve (4 * ((bytes.length + 2) / 3) + 2)).append
        (ascii '"' :: (Base64.encode bytes ++ [ascii '"'])) := by
  have hlength : ∀ n, Base64.encodedLength n = 4 * ((n + 2) / 3) := fun n => Nat.mul_comm _ _
  refine ⟨toList_foldl_run _ ops, foldl_run_eq_runAll _ ops,
    Access.allSound_flatMap allSound_accesses, fun b bytes pieces => ?_⟩
  rw [← hlength, run_base64, List.length_cons, List.length_append, length_encode]
  exact ⟨rfl, rfl⟩

/-- Room for three bytes is made for six, and room for seven for fourteen. -/
example : (empty.write [1, 2, 3]).capacity = 6 ∧
    ((empty.write [1, 2, 3]).write [4, 5, 6, 7]).capacity = 14 := by decide

end ProtoJson.Buffer

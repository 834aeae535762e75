import AgentOrchestrator.JsonText
import AgentOrchestrator.Library.Base64
import AgentOrchestrator.Library.Utf8
import AgentOrchestrator.Store.Operations

/-!
# Pagination cursors

A cursor is the base64url text of a JSON object with the batch and the offset of the next page.
Decoding inverts encoding for the same batch and rejects the cursors of every other batch.
-/

namespace AgentOrchestrator.Store

/-- `JSON.stringify({ batchId, offset })` -/
def cursorText (batchId : String) (offset : ℕ) : List Char :=
  '\x7b' :: ((Json.quote "batchId").toList ++ ':' :: ((Json.quote batchId).toList ++
    ',' :: ((Json.quote "offset").toList ++ ':' :: (Nat.toDigits 10 offset ++ ['\x7d']))))

def encodeCursor (batchId : String) (offset : ℕ) : String :=
  String.ofList (Base64.encode Base64.url (Utf8.encode (cursorText batchId offset)))

def invalidCursor : StoreError := .batchQuery .invalidCursor "Invalid pagination cursor"

/-- The check of a parsed cursor: a text and a safe natural number, other fields are dropped. -/
def readCursor (value : Json) : Option (String × ℕ) :=
  match value with
  | .obj fields =>
    match fields.lookup "batchId", fields.lookup "offset" with
    | some (.str batchId), some (.num offset) =>
      if offset.den = 1 ∧ 0 ≤ offset ∧ offset ≤ maxSafeInteger then some (batchId, offset.num.toNat)
      else none
    | _, _ => none
  | _ => none

def decodeCursor (cursor batchId : String) : Except StoreError ℕ :=
  match (Json.parse (Utf8.decode (Base64.decode cursor.toList))).bind readCursor with
  | none => .error invalidCursor
  | some (id, offset) => if id = batchId then .ok offset else .error invalidCursor

theorem parse_cursorText (batchId : String) (offset : ℕ) :
    Json.parse (cursorText batchId offset) =
      some (.obj [("batchId", .str batchId), ("offset", .nat offset)]) := by
  obtain ⟨fuel, hfuel⟩ : ∃ fuel, (cursorText batchId offset).length = fuel + 3 := by
    refine ⟨(cursorText batchId offset).length - 3, ?_⟩
    have hlength : 3 ≤ (cursorText batchId offset).length := by
      simp only [cursorText, List.length_cons, List.length_append]
      omega
    omega
  have hoffset := (@Json.parseFields_field (fuel + 1) [("batchId", .str batchId)] "offset" _ _ _ _
    (Json.parseValue_toDigits fuel offset [] (by decide) (by decide) (by decide))).2 rfl
  have hbatch := (@Json.parseFields_field (fuel + 2) [] "batchId" _ _ _ _
    (Json.parseValue_quote (fuel + 1) batchId (',' :: ((Json.quote "offset").toList ++
      ':' :: (Nat.toDigits 10 offset ++ ['\x7d']))))).1 rfl
  have hassign : Json.assign "batchId" (.str batchId) [] = [("batchId", .str batchId)] := rfl
  unfold Json.parse
  rw [hfuel]
  unfold cursorText
  rw [Json.parseValue_object, hbatch, hassign, hoffset]
  rfl

theorem decode_encodeCursor (batchId : String) (offset : ℕ) :
    Utf8.decode (Base64.decode (encodeCursor batchId offset).toList) = cursorText batchId offset := by
  have hbytes : ∀ b ∈ Utf8.encode (cursorText batchId offset), b < 256 := by
    intro b hb
    obtain ⟨byte, -, rfl⟩ := List.mem_map.1 hb
    exact byte.toNat_lt
  unfold encodeCursor
  rw [String.toList_ofList, Base64.decode_encode hbytes, Utf8.decode_encode]

/-- A cursor is read back for its batch, and rejected for every other one. -/
theorem decodeCursor_encodeCursor {offset : ℕ} (h : offset ≤ maxSafeInteger)
    (batchId batchId' : String) :
    decodeCursor (encodeCursor batchId offset) batchId' =
      if batchId = batchId' then .ok offset else .error invalidCursor := by
  have hread : readCursor (.obj [("batchId", .str batchId), ("offset", .nat offset)]) =
      some (batchId, offset) := by
    have hcheck : ((offset : ℚ)).den = 1 ∧ 0 ≤ (offset : ℚ) ∧ (offset : ℚ) ≤ maxSafeInteger := by
      refine ⟨Rat.den_natCast offset, by exact_mod_cast Nat.zero_le offset, by exact_mod_cast h⟩
    show (if ((offset : ℚ)).den = 1 ∧ 0 ≤ (offset : ℚ) ∧ (offset : ℚ) ≤ maxSafeInteger then
      some (batchId, ((offset : ℚ)).num.toNat) else none) = _
    rw [if_pos hcheck, Rat.num_natCast]
    rfl
  unfold decodeCursor
  rw [decode_encodeCursor, parse_cursorText, Option.bind_some, hread]

/-- A cursor is rejected for another batch, whatever its offset. -/
theorem decodeCursor_foreign {batchId batchId' : String} (offset : ℕ) (h : batchId ≠ batchId') :
    decodeCursor (encodeCursor batchId offset) batchId' = .error invalidCursor := by
  by_cases hsafe : offset ≤ maxSafeInteger
  · rw [decodeCursor_encodeCursor hsafe, if_neg h]
  · have hread : readCursor (.obj [("batchId", .str batchId), ("offset", .nat offset)]) = none := by
      refine if_neg fun hcheck => hsafe ?_
      exact_mod_cast hcheck.2.2
    unfold decodeCursor
    rw [decode_encodeCursor, parse_cursorText, Option.bind_some, hread]

end AgentOrchestrator.Store

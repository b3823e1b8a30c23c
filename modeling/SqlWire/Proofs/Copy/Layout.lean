import Mathlib.Tactic
import SqlWire.Copy.Frame

/-!
# The layout of a copy stream

`CopyStream.form` is the stream of some fields as one run of bytes: the header, then
the fields in order, with the number of columns before the first field of each tuple.
It knows of no buffer and of no sink.

`pieces_form` compares it with what a frame puts out for its next field.
-/

namespace SqlWire

namespace CopyStream

/-- A missing field is four bytes of ones; another one is its length in four bytes, then its
bytes. -/
def fieldForm : Nullable → Bytes
  | none => [0xFF, 0xFF, 0xFF, 0xFF]
  | some bytes => Bytes.bigEndian 4 bytes.length ++ bytes

/-- The field number `i`, after the number of columns in two bytes if it begins a tuple. -/
def entryForm (columns i : Nat) (field : Nullable) : Bytes :=
  (if i % columns = 0 then Bytes.bigEndian 2 columns else []) ++ fieldForm field

/-- The stream of some fields. -/
def form (columns : Nat) (fields : List Nullable) : Bytes :=
  header ++ (fields.mapIdx (entryForm columns)).flatten

variable {columns : Nat} {field : Nullable}

@[simp] theorem form_nil (columns : Nat) : form columns [] = header := by simp [form]

theorem form_concat (columns : Nat) (fields : List Nullable) (field : Nullable) :
    form columns (fields ++ [field]) =
      form columns fields ++ entryForm columns fields.length field := by
  simp [form, List.mapIdx_concat]

/-- A complete row: the number of columns in two bytes, then the fields. -/
def rowForm (columns : Nat) (row : List Nullable) : Bytes :=
  Bytes.bigEndian 2 columns ++ row.flatMap fieldForm

theorem form_append_row {fields row : List Nullable} (hfields : fields.length % columns = 0)
    (hrow : row.length ≤ columns) (hne : row ≠ []) :
    form columns (fields ++ row) = form columns fields ++ rowForm columns row := by
  induction row using List.reverseRecOn with
  | nil => exact absurd rfl hne
  | append_singleton row field ih =>
    rw [List.length_append, List.length_singleton] at hrow
    rw [← List.append_assoc, form_concat]
    by_cases hfirst : row = []
    · subst hfirst
      simp [entryForm, rowForm, hfields]
    · have hindex : (fields ++ row).length % columns ≠ 0 := by
        rw [List.length_append, Nat.add_mod, hfields, Nat.zero_add, Nat.mod_mod,
          Nat.mod_eq_of_lt (by omega)]
        exact fun hzero => hfirst (List.length_eq_zero_iff.1 hzero)
      rw [ih (by omega) hfirst, entryForm, if_neg hindex]
      simp [rowForm]

theorem form_flatten {table : List (List Nullable)} (hcolumns : 0 < columns)
    (hfull : ∀ row ∈ table, row.length = columns) :
    form columns table.flatten = header ++ table.flatMap (rowForm columns) := by
  induction table using List.reverseRecOn with
  | nil => simp
  | append_singleton table row ih =>
    have hbefore : ∀ row ∈ table, row.length = columns :=
      fun row hrow => hfull row (List.mem_append_left _ hrow)
    have hrow : row.length = columns := hfull row (by simp)
    have hwhole : table.flatten.length % columns = 0 := by
      have hlengths : table.map List.length = List.replicate table.length columns := by
        rw [List.eq_replicate_iff, List.length_map]
        exact ⟨rfl, by simpa using hbefore⟩
      rw [List.length_flatten, hlengths, List.sum_replicate, smul_eq_mul, Nat.mul_mod_left]
    have hne : row ≠ [] := List.ne_nil_of_length_pos (hrow ▸ hcolumns)
    rw [List.flatten_concat, form_append_row hwhole hrow.le hne, ih hbefore]
    simp

theorem toBytes_columns (h : columns ≤ 32767) :
    Word.toBytes (Int16.ofNat columns) = Bytes.bigEndian 2 columns := by
  change Bytes.bigEndian 2 (UInt16.ofNat columns).toNat = _
  rw [UInt16.toNat_ofNat_of_lt' (lt_of_le_of_lt h (by decide))]

theorem toBytes_lengthWord (h : field.Fits) :
    Word.toBytes field.lengthWord ++ field.getD [] = fieldForm field := by
  cases field with
  | none => decide
  | some bytes =>
    have hlt : bytes.length < UInt32.size := (h bytes rfl).trans (by decide)
    change Bytes.bigEndian 4 (UInt32.ofNat bytes.length).toNat ++ bytes = _
    rw [UInt32.toNat_ofNat_of_lt' hlt, fieldForm]

end CopyStream

namespace CopyFrame

variable {f : CopyFrame} {field : Nullable}

theorem fieldPieces_form (h : field.Fits) (position : Nat) :
    (fieldPieces field position).flatMap Piece.bytes = CopyStream.fieldForm field := by
  simp [fieldPieces, ← CopyStream.toBytes_lengthWord h]

/-- The number of columns goes out before a field that begins a tuple. -/
theorem flatMap_pieces (h : field.Fits) :
    (f.pieces field).flatMap Piece.bytes =
      (if f.openTuple?.isSome then [] else Bytes.bigEndian 2 f.columns) ++
        CopyStream.fieldForm field := by
  unfold pieces
  cases f.openTuple? with
  | none =>
    rw [List.flatMap_cons, fieldPieces_form h]
    exact congrArg (· ++ _) (CopyStream.toBytes_columns f.config.columns_le)
  | some p => exact fieldPieces_form h p

theorem pieces_form {i : Nat} (h : field.Fits)
    (hopen : f.openTuple? = if i % f.columns = 0 then none else some (i % f.columns)) :
    (f.pieces field).flatMap Piece.bytes = CopyStream.entryForm f.columns i field := by
  rw [flatMap_pieces h, hopen, CopyStream.entryForm]
  by_cases hi : i % f.columns = 0
  · simp only [if_pos hi]
    rfl
  · simp only [if_neg hi]
    rfl

theorem exists_pieces_eq (f : CopyFrame) (field : Nullable) :
    ∃ front, f.pieces field = front ++ [⟨field.getD [], f.openTuple?.getD 0 + 1⟩] := by
  unfold pieces
  cases f.openTuple? with
  | none => exact ⟨[_, _], rfl⟩
  | some p => exact ⟨[_], rfl⟩

end CopyFrame

end SqlWire

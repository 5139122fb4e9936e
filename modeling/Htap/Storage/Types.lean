import Htap.Basis.Words
import Htap.Basis.SortedMap
import Htap.Basis.Binary64

/-!
Values, rows, schemas and the configuration of the storage engine, with the
checks that `SchemaBuilder`, `Schema` and `LSMStorageEngine` make on them.

`std::string` is a byte string here and `double` a binary64 pattern, so both
compare as the source compares them and both keep every bit they hold.
-/

namespace Htap

/-- What the source throws: a text, and the column or table that some texts end with.
`iosFailure` is the failure of a file write;
`danglingIterator` stands for reading through an iterator whose container is
gone, which is undefined behaviour in the source, and `outOfFuel` for a loop that
runs past the bound it has here. -/
inductive Exception where
  | runtimeError (what : String) (name : List UInt8 := [])
  | logicError (what : String)
  | outOfRange (what : String)
  | invalidArgument (what : String) (name : List UInt8 := [])
  | badVariantAccess
  | iosFailure (what : String)
  | danglingIterator
  | outOfFuel
  deriving DecidableEq

abbrev Result (α : Type) : Type := Except Exception α

namespace Result

variable {α β : Type}

@[simp] theorem ok_bind (a : α) (f : α → Result β) : (Except.ok a >>= f) = f a := rfl

@[simp] theorem error_bind (e : Exception) (f : α → Result β) :
    ((Except.error e : Result α) >>= f) = Except.error e := rfl

@[simp] theorem pure_eq (a : α) : (pure a : Result α) = Except.ok a := rfl

@[simp] theorem throw_eq (e : Exception) : (throw e : Result α) = Except.error e := rfl

/-- Peel the first computation off a sequence that succeeded. -/
theorem bind_eq_ok {x : Result α} {f : α → Result β} {b : β} :
    (x >>= f) = Except.ok b ↔ ∃ a, x = Except.ok a ∧ f a = Except.ok b := by
  cases x with
  | ok a => simp
  | error e => simp

/-- Where a sequence fails. -/
theorem bind_eq_error {x : Result α} {f : α → Result β} {e : Exception} :
    (x >>= f) = Except.error e ↔ x = Except.error e ∨
      ∃ a, x = Except.ok a ∧ f a = Except.error e := by
  cases x with
  | ok a => simp
  | error e' => simp

/-- No file write failed on the way to `x`. -/
def IoSucceeds (x : Result α) : Prop := ∀ what, x ≠ .error (.iosFailure what)

theorem IoSucceeds.of_isOk {x : Result α} (h : x.isOk = true) : IoSucceeds x := by
  intro what hfail
  rw [hfail] at h
  cases h

/-- `x` is `a`, or a file write fails, which it does not when the files fit. -/
def ReturnsIf (fits : Prop) (x : Result α) (a : α) : Prop :=
  x = .ok a ∨ ¬ fits ∧ ∃ what, x = .error (.iosFailure what)

/-- `x` is `a` unless a file write fails. -/
abbrev Returns (x : Result α) (a : α) : Prop := ReturnsIf False x a

section ReturnsIf

variable {fits : Prop}

theorem ReturnsIf.of_ok (a : α) : ReturnsIf fits (.ok a) a := Or.inl rfl

theorem ReturnsIf.bind {x : Result α} {f : α → Result β} {a : α} {b : β}
    (hx : ReturnsIf fits x a) (hf : ReturnsIf fits (f a) b) : ReturnsIf fits (x >>= f) b := by
  rcases hx with rfl | ⟨hfits, what, rfl⟩
  · exact hf
  · exact Or.inr ⟨hfits, what, rfl⟩

theorem ReturnsIf.eq_ok {x : Result α} {a : α} (hx : ReturnsIf fits x a) (hio : IoSucceeds x) :
    x = .ok a := by
  rcases hx with h | ⟨-, what, h⟩
  · exact h
  · exact absurd h (hio what)

theorem ReturnsIf.eq_ok_of_fits {x : Result α} {a : α} (hx : ReturnsIf fits x a) (hfits : fits) :
    x = .ok a := by
  rcases hx with h | ⟨hnot, -⟩
  · exact h
  · exact absurd hfits hnot

theorem ReturnsIf.eq_of_ok {x : Result α} {a b : α} (hx : ReturnsIf fits x a) (hb : x = .ok b) :
    b = a := by
  rcases hx with h | ⟨-, what, h⟩
  · exact Except.ok.inj (hb.symm.trans h)
  · simp [hb] at h

/-- Iterating a step that succeeds, or fails at a write, from every good state. -/
theorem foldlM_returns {σ ι : Type} {step : σ → ι → Result σ} (Good : σ → List ι → Prop)
    (hstep : ∀ s i rest, Good s (i :: rest) →
      ∃ s', ReturnsIf fits (step s i) s' ∧ Good s' rest)
    (items : List ι) (s : σ) (hs : Good s items) :
    ∃ s', ReturnsIf fits (items.foldlM step s) s' ∧ Good s' [] := by
  induction items generalizing s with
  | nil => exact ⟨s, ReturnsIf.of_ok s, hs⟩
  | cons i items ih =>
    obtain ⟨next, hnext, hgood⟩ := hstep s i items hs
    obtain ⟨last, hlast, hfinal⟩ := ih next hgood
    refine ⟨last, ?_, hfinal⟩
    rw [List.foldlM_cons]
    exact hnext.bind hlast

end ReturnsIf

/-- What every successful step keeps, a successful iteration keeps. -/
theorem foldlM_invariant {σ ι : Type} {step : σ → ι → Result σ} (P : σ → Prop)
    (hstep : ∀ s i s', P s → step s i = .ok s' → P s') (items : List ι) {s s' : σ} (hs : P s)
    (h : items.foldlM step s = .ok s') : P s' := by
  induction items generalizing s with
  | nil =>
    cases h
    exact hs
  | cons i items ih =>
    rw [List.foldlM_cons] at h
    obtain ⟨next, hnext, hrest⟩ := bind_eq_ok.mp h
    exact ih (hstep s i next hs hnext) hrest

/-! ### `mapM` -/

theorem mapM_eq_ok {f : α → Result β} {items : List α} {results : List β} :
    items.mapM f = .ok results ↔ List.Forall₂ (fun a b => f a = .ok b) items results := by
  induction items generalizing results with
  | nil =>
    rw [List.mapM_nil, pure_eq, Except.ok.injEq, List.forall₂_nil_left_iff]
    exact eq_comm
  | cons a items ih =>
    rw [List.mapM_cons]
    constructor
    · intro h
      obtain ⟨b, hb, h⟩ := bind_eq_ok.mp h
      obtain ⟨rest, hrest, h⟩ := bind_eq_ok.mp h
      cases h
      exact List.Forall₂.cons hb (ih.mp hrest)
    · rintro (_ | ⟨hb, hrest⟩)
      rw [hb, ok_bind, ih.mpr hrest, ok_bind, pure_eq]

theorem mapM_eq_map {f : α → Result β} {g : α → β} (items : List α)
    (h : ∀ a ∈ items, f a = .ok (g a)) : items.mapM f = .ok (items.map g) := by
  rw [mapM_eq_ok, List.forall₂_map_right_iff, List.forall₂_same]
  exact h

theorem mapM_congr {f g : α → Result β} {items : List α} (h : ∀ a ∈ items, f a = g a) :
    items.mapM f = items.mapM g := by
  induction items with
  | nil => rfl
  | cons a items ih =>
    rw [List.mapM_cons, List.mapM_cons, h a List.mem_cons_self,
      ih fun b hb => h b (List.mem_cons_of_mem a hb)]

/-- Every result comes from an item. -/
theorem exists_of_mem_mapM {f : α → Result β} {items : List α} {results : List β}
    (h : items.mapM f = .ok results) {b : β} (hb : b ∈ results) : ∃ a ∈ items, f a = .ok b := by
  have hall := mapM_eq_ok.mp h
  clear h
  induction hall with
  | nil => cases hb
  | @cons a b' items results hab _ ih =>
    rcases List.mem_cons.mp hb with rfl | hb
    · exact ⟨a, List.mem_cons_self, hab⟩
    · obtain ⟨a', ha', hf⟩ := ih hb
      exact ⟨a', List.mem_cons_of_mem a ha', hf⟩

/-- A failure comes from an item. -/
theorem exists_of_mapM_error {f : α → Result β} {items : List α} {e : Exception}
    (h : items.mapM f = .error e) : ∃ a ∈ items, f a = .error e := by
  induction items with
  | nil => cases h
  | cons a items ih =>
    rw [List.mapM_cons] at h
    rcases bind_eq_error.mp h with ha | ⟨b, -, h⟩
    · exact ⟨a, List.mem_cons_self, ha⟩
    · rcases bind_eq_error.mp h with hrest | ⟨rest, -, h⟩
      · obtain ⟨a', ha', hf⟩ := ih hrest
        exact ⟨a', List.mem_cons_of_mem a ha', hf⟩
      · cases h

/-- One item that fails makes the whole fail. -/
theorem mapM_ne_ok {f : α → Result β} {items : List α} {a : α} (ha : a ∈ items)
    (hf : ∀ b, f a ≠ .ok b) (results : List β) : items.mapM f ≠ .ok results := by
  intro h
  have hall := mapM_eq_ok.mp h
  clear h
  induction hall with
  | nil => cases ha
  | cons hab _ ih =>
    rcases List.mem_cons.mp ha with rfl | ha
    · exact hf _ hab
    · exact ih ha

end Result

namespace Storage

abbrev Bytes : Type := List UInt8

abbrev Key : Type := Int64

inductive ValueType where
  | int64
  | double
  | string
  deriving DecidableEq, Repr

/-- `static_cast<uint8_t>(type)`. -/
def ValueType.code : ValueType → Nat
  | .int64 => 0
  | .double => 1
  | .string => 2

/-- `is_numeric_type`. -/
def ValueType.isNumeric : ValueType → Bool
  | .int64 => true
  | .double => true
  | .string => false

inductive ScanOrder where
  | unordered
  | keyAscending
  deriving DecidableEq, Repr

inductive Value where
  | int64 (v : Int64)
  | double (v : Binary64)
  | string (v : Bytes)
  deriving DecidableEq

def Value.type : Value → ValueType
  | .int64 _ => .int64
  | .double _ => .double
  | .string _ => .string

abbrev NullableValue : Type := Option Value

abbrev Row : Type := List NullableValue

/-- `KEY_COLUMN_INDEX`. -/
def keyColumnIndex : Nat := 0

/-- `std::get<Key>(*row[KEY_COLUMN_INDEX])`. Every row of the engine passed
`validateRow`, so the key cell holds an INT64; other rows do not get here. -/
def rowKey : Row → Key
  | some (.int64 key) :: _ => key
  | _ => 0

/-! ## Schemas -/

structure Column where
  name : Bytes
  type : ValueType
  isKey : Bool := false
  nullable : Bool := true
  deriving DecidableEq

structure Schema where
  columns : List Column
  deriving DecidableEq

namespace Schema

def size (schema : Schema) : Nat := schema.columns.length

def getColumn (schema : Schema) (index : Nat) : Result Column :=
  match schema.columns[index]? with
  | some column => .ok column
  | none => .error (.outOfRange "Column index out of range")

/-- The map from names is filled in declaration order, so the last column of a
name wins. -/
def getColumnIndex (schema : Schema) (name : Bytes) : Option Nat :=
  (schema.columns.zipIdx.reverse.find? fun c => c.1.name = name).map Prod.snd

/-- `extract_schema_types`, `schema_types`. -/
def types (schema : Schema) : List ValueType := schema.columns.map Column.type

def isValidValue (schema : Schema) (columnIndex : Nat) (value : NullableValue) : Bool :=
  match schema.columns[columnIndex]? with
  | none => false
  | some column =>
    match value with
    | none => column.nullable
    | some v => v.type == column.type

/-- The column found under a name has that name. -/
theorem getColumnIndex_eq_some {schema : Schema} {name : Bytes} {i : Nat}
    (h : schema.getColumnIndex name = some i) :
    ∃ c, schema.columns[i]? = some c ∧ c.name = name := by
  obtain ⟨⟨c, j⟩, hfind, rfl⟩ := Option.map_eq_some_iff.mp h
  have hmem := List.mem_reverse.mp (List.mem_of_find?_eq_some hfind)
  exact ⟨c, List.mem_zipIdx_iff_getElem?.mp hmem, by simpa using List.find?_some hfind⟩

/-- A name is found when some column has it. -/
theorem getColumnIndex_isSome {schema : Schema} {name : Bytes} :
    (schema.getColumnIndex name).isSome = true ↔ ∃ c ∈ schema.columns, c.name = name := by
  rw [getColumnIndex, Option.isSome_map, List.find?_isSome]
  constructor
  · rintro ⟨⟨c, i⟩, hmem, hname⟩
    exact ⟨c, List.fst_mem_of_mem_zipIdx (List.mem_reverse.mp hmem), by simpa using hname⟩
  · rintro ⟨c, hmem, hname⟩
    obtain ⟨i, hi, hget⟩ := List.getElem_of_mem hmem
    refine ⟨(c, i), List.mem_reverse.mpr ?_, by simpa using hname⟩
    exact List.mk_mem_zipIdx_iff_getElem?.mpr (List.getElem?_eq_some_iff.mpr ⟨hi, hget⟩)

@[simp] theorem length_types (schema : Schema) : schema.types.length = schema.size := by
  simp [types, size]

end Schema

/-! ## Building schemas -/

structure SchemaBuilder where
  columns : List Column := []
  columnNames : List Bytes := []
  keySeen : Bool := false

namespace SchemaBuilder

def addColumn (b : SchemaBuilder) (name : Bytes) (type : ValueType) (isKey nullable : Bool) :
    Result SchemaBuilder :=
  if name ∈ b.columnNames then
    .error (.invalidArgument "Duplicate column name: " name)
  else if isKey && type != .int64 then
    .error (.runtimeError "Primary key must be INT64")
  else if isKey && nullable then
    .error (.runtimeError "Primary key must not be nullable")
  else if isKey && b.keySeen then
    .error (.runtimeError "Schema must contain only one primary key")
  else if isKey && b.columns.length != keyColumnIndex then
    .error (.runtimeError "Primary key must be at column index 0")
  else
    .ok {
      columns := b.columns ++ [{ name := name, type := type, isKey := isKey, nullable := nullable }]
      columnNames := name :: b.columnNames
      keySeen := b.keySeen || isKey }

def build (b : SchemaBuilder) : Result Schema :=
  if b.columns.isEmpty then
    .error (.runtimeError "Schema must contain at least one column")
  else if !b.keySeen then
    .error (.runtimeError "Schema must contain exactly one primary key")
  else
    .ok ⟨b.columns⟩

/-- The arguments of one `add_column` call. -/
structure Call where
  name : Bytes
  type : ValueType
  isKey : Bool
  nullable : Bool

/-- A call whose exception, if any, is caught: the builder stays as it was. -/
def call (b : SchemaBuilder) (c : Call) : SchemaBuilder :=
  match b.addColumn c.name c.type c.isKey c.nullable with
  | .ok next => next
  | .error _ => b

def callAll (calls : List Call) : SchemaBuilder := calls.foldl call {}

end SchemaBuilder

/-- The schemas `SchemaBuilder` can produce. -/
def Schema.FromBuilder (schema : Schema) : Prop :=
  ∃ calls, (SchemaBuilder.callAll calls).build = .ok schema

/-! ## The engine's own checks -/

/-- `validate_row`. -/
def validateRow (schema : Schema) (values : Row) : Result Unit :=
  if values.length ≠ schema.size then
    .error (.runtimeError "Row size mismatch schema")
  else if !(values.zipIdx.all fun v => schema.isValidValue v.2 v.1) then
    .error (.runtimeError "Invalid value for column")
  else if (values[keyColumnIndex]?.join).isNone then
    .error (.runtimeError "Key cannot be NULL")
  else
    .ok ()

/-- What `SchemaBuilder::build` guarantees: the key column, an INT64 that is not
nullable, comes first and is the only one. -/
structure Schema.WellFormed (schema : Schema) : Prop where
  keyFirst : ∃ c rest, schema.columns = c :: rest ∧ c.type = .int64 ∧ c.isKey = true ∧
    c.nullable = false ∧ ∀ d ∈ rest, d.isKey = false

namespace SchemaBuilder

/-- What `add_column` accepts, and what it makes of the builder. -/
theorem addColumn_eq_ok {b next : SchemaBuilder} {name : Bytes} {type : ValueType}
    {isKey nullable : Bool} : b.addColumn name type isKey nullable = .ok next ↔
      name ∉ b.columnNames ∧
      (isKey = true → type = .int64 ∧ nullable = false ∧ b.keySeen = false ∧ b.columns = []) ∧
      next = {
        columns := b.columns ++ [{ name, type, isKey, nullable }]
        columnNames := name :: b.columnNames
        keySeen := b.keySeen || isKey } := by
  unfold addColumn
  by_cases hname : name ∈ b.columnNames
  · simp [hname]
  · cases isKey with
    | false =>
      simp only [hname, Bool.false_and, Bool.false_eq_true, if_false, Except.ok.injEq,
        not_false_eq_true, false_implies, true_and]
      exact eq_comm
    | true =>
      simp only [hname, if_false, Bool.true_and, true_implies, not_false_eq_true, true_and]
      by_cases htype : type = .int64
      · cases nullable with
        | true => simp [htype]
        | false =>
          cases hseen : b.keySeen with
          | true => simp [htype]
          | false =>
            by_cases hfirst : b.columns = []
            · simp only [htype, hfirst, keyColumnIndex, List.length_nil, bne_self_eq_false,
                Bool.false_eq_true, if_false, Except.ok.injEq, true_and]
              exact eq_comm
            · simp [htype, keyColumnIndex, hfirst]
      · simp [htype]

/-- Once the key column was seen it is the first column and no other is a key;
before that there is no column a key could follow. -/
private def KeyInvariant (b : SchemaBuilder) : Prop :=
  if b.keySeen then (Schema.mk b.columns).WellFormed else ∀ c ∈ b.columns, c.isKey = false

/-- The builder knows the names of its columns, which differ. -/
private def NamesInvariant (b : SchemaBuilder) : Prop :=
  b.columnNames.Perm (b.columns.map Column.name) ∧ b.columnNames.Nodup

private theorem keyInvariant_call {b : SchemaBuilder} (c : Call) (h : b.KeyInvariant) :
    (b.call c).KeyInvariant := by
  unfold call
  split
  · rename_i next hnext
    obtain ⟨-, hkeyed, rfl⟩ := addColumn_eq_ok.mp hnext
    unfold KeyInvariant at h ⊢
    cases hkey : c.isKey with
    | true =>
      obtain ⟨htype, hnull, hseen, hfirst⟩ := hkeyed hkey
      simp only [hseen, Bool.or_true, if_true, hfirst, List.nil_append]
      exact ⟨_, [], rfl, htype, rfl, hnull, by simp⟩
    | false =>
      simp only [Bool.or_false]
      cases hkeySeen : b.keySeen with
      | true =>
        simp only [hkeySeen, if_true] at h ⊢
        obtain ⟨k, rest, hcols, h1, h2, h3, h4⟩ := h.keyFirst
        simp only at hcols
        refine ⟨k, rest ++ [_], by rw [hcols]; rfl, h1, h2, h3, ?_⟩
        intro d hd
        rcases List.mem_append.mp hd with hin | hin
        · exact h4 d hin
        · rw [List.mem_singleton.mp hin]
      | false =>
        simp only [hkeySeen, Bool.false_eq_true, if_false] at h ⊢
        intro d hd
        rcases List.mem_append.mp hd with hin | hin
        · exact h d hin
        · rw [List.mem_singleton.mp hin]
  · exact h

private theorem namesInvariant_call {b : SchemaBuilder} (c : Call) (h : b.NamesInvariant) :
    (b.call c).NamesInvariant := by
  unfold call
  split
  · rename_i next hnext
    obtain ⟨hname, -, rfl⟩ := addColumn_eq_ok.mp hnext
    constructor
    · rw [List.map_append, List.map_singleton]
      exact (h.1.cons c.name).trans (List.perm_append_singleton c.name _).symm
    · exact List.nodup_cons.mpr ⟨hname, h.2⟩
  · exact h

private theorem namesInvariant_callAll (calls : List Call) (b : SchemaBuilder)
    (h : b.NamesInvariant) : (calls.foldl call b).NamesInvariant := by
  induction calls generalizing b with
  | nil => exact h
  | cons c calls ih => exact ih (b.call c) (namesInvariant_call c h)

private theorem keyInvariant_callAll (calls : List Call) (b : SchemaBuilder)
    (h : b.KeyInvariant) : (calls.foldl call b).KeyInvariant := by
  induction calls generalizing b with
  | nil => exact h
  | cons c calls ih => exact ih (b.call c) (keyInvariant_call c h)

end SchemaBuilder

theorem Schema.FromBuilder.wellFormed {schema : Schema} (h : schema.FromBuilder) :
    schema.WellFormed := by
  obtain ⟨calls, hbuild⟩ := h
  have hinv := SchemaBuilder.keyInvariant_callAll calls {} (by
    simp [SchemaBuilder.KeyInvariant])
  unfold SchemaBuilder.build at hbuild
  split at hbuild
  · cases hbuild
  · split at hbuild
    · cases hbuild
    · rename_i hseen
      cases hbuild
      simp only [Bool.not_eq_true', Bool.not_eq_false] at hseen
      unfold SchemaBuilder.KeyInvariant at hinv
      rw [SchemaBuilder.callAll] at hseen
      rwa [if_pos hseen] at hinv

/-- The columns of a schema from the builder have different names. -/
theorem Schema.FromBuilder.nodup_names {schema : Schema} (h : schema.FromBuilder) :
    (schema.columns.map Column.name).Nodup := by
  obtain ⟨calls, hbuild⟩ := h
  have hinv := SchemaBuilder.namesInvariant_callAll calls {} ⟨List.Perm.nil, List.nodup_nil⟩
  unfold SchemaBuilder.build at hbuild
  split at hbuild
  · cases hbuild
  · split at hbuild
    · cases hbuild
    · cases hbuild
      exact hinv.1.nodup_iff.mp hinv.2

/-- The value is NULL or of the column's type. -/
def HasType (type : ValueType) (value : NullableValue) : Prop := ∀ v ∈ value, v.type = type

/-- A row that passed `validate_row`: an INT64 key first, and in every cell a
NULL or a value of the column's type. -/
structure ValidRow (schema : Schema) (row : Row) : Prop where
  key : ∃ k rest, row = some (.int64 k) :: rest
  typed : List.Forall₂ HasType schema.types row

theorem ValidRow.length {schema : Schema} {row : Row} (h : ValidRow schema row) :
    row.length = schema.size := by
  rw [← h.typed.length_eq, Schema.length_types]

/-- The key cell of a valid row is the key it is stored under. -/
theorem ValidRow.head {schema : Schema} {row : Row} (h : ValidRow schema row) :
    ∃ rest, row = some (.int64 (rowKey row)) :: rest := by
  obtain ⟨k, rest, rfl⟩ := h.key
  exact ⟨rest, rfl⟩

private theorem typed_of_isValidValue (schema : Schema) (values : Row)
    (hlength : values.length = schema.size)
    (hall : ∀ i value, values[i]? = some value → schema.isValidValue i value = true) :
    List.Forall₂ HasType schema.types values := by
  apply List.forall₂_iff_get.mpr
  refine ⟨by rw [Schema.length_types, hlength], ?_⟩
  intro i h1 h2 v hv
  have hi : i < schema.columns.length := by simpa [Schema.types] using h1
  have hvalid := hall i values[i] (List.getElem?_eq_getElem h2)
  have hvalue : values[i] = some v := hv
  simp only [Schema.isValidValue, List.getElem?_eq_getElem hi, hvalue, beq_iff_eq] at hvalid
  simpa [Schema.types] using hvalid

/-- For schemas of the builder, `validate_row` accepts valid rows only. -/
theorem validRow_of_validateRow {schema : Schema} {values : Row} (hschema : schema.WellFormed)
    (h : validateRow schema values = .ok ()) : ValidRow schema values := by
  unfold validateRow at h
  split at h
  · cases h
  · rename_i hlength
    simp only [ne_eq, not_not] at hlength
    split at h
    · cases h
    · rename_i hvalid
      simp only [Bool.not_eq_true', Bool.not_eq_false, List.all_eq_true] at hvalid
      have hall : ∀ i value, values[i]? = some value → schema.isValidValue i value = true := by
        intro i value hi
        obtain ⟨hlt, hget⟩ := List.getElem?_eq_some_iff.mp hi
        have hmem : (value, i) ∈ values.zipIdx :=
          List.mk_mem_zipIdx_iff_getElem?.mpr hi
        exact hvalid _ hmem
      split at h
      · cases h
      · rename_i hkey
        have htyped := typed_of_isValidValue schema values hlength hall
        refine ⟨?_, htyped⟩
        obtain ⟨c, rest, hcolumns, htype, -⟩ := hschema.keyFirst
        cases values with
        | nil => simp [keyColumnIndex] at hkey
        | cons cell cells =>
          cases cell with
          | none => simp [keyColumnIndex] at hkey
          | some v =>
            rw [Schema.types, hcolumns, List.map_cons, htype] at htyped
            have hv := (List.forall₂_cons.mp htyped).1 v rfl
            cases v with
            | int64 k => exact ⟨k, cells, rfl⟩
            | double d => cases hv
            | string s => cases hv

/-- The loop of `validate_projection` after the columns `used`. -/
def checkProjection (schema : Schema) (used : List Nat) : List Nat → Result Unit
  | [] => .ok ()
  | c :: rest =>
    if schema.size ≤ c then
      .error (.runtimeError "Projection column index out of schema range")
    else if c ∈ used then
      .error (.runtimeError "Projection contains duplicate column index")
    else
      checkProjection schema (c :: used) rest

/-- `validate_projection`. -/
def validateProjection (schema : Schema) (projection : List Nat) : Result Unit :=
  checkProjection schema [] projection

private theorem checkProjection_eq_ok {schema : Schema} {used projection : List Nat} :
    checkProjection schema used projection = .ok () ↔
      projection.Nodup ∧ ∀ i ∈ projection, i < schema.size ∧ i ∉ used := by
  induction projection generalizing used with
  | nil => simp [checkProjection]
  | cons c rest ih =>
    unfold checkProjection
    by_cases hsize : schema.size ≤ c
    · simp [hsize, Nat.not_lt.mpr hsize]
    · by_cases hused : c ∈ used
      · simp [hsize, hused]
      · rw [if_neg hsize, if_neg hused, ih]
        simp only [List.nodup_cons, List.mem_cons, forall_eq_or_imp, not_or]
        have hlt := Nat.not_le.mp hsize
        constructor
        · rintro ⟨hnodup, hrest⟩
          refine ⟨⟨fun hmem => (hrest c hmem).2.1 rfl, hnodup⟩, ⟨hlt, hused⟩, ?_⟩
          exact fun i hi => ⟨(hrest i hi).1, (hrest i hi).2.2⟩
        · rintro ⟨⟨hnot, hnodup⟩, -, hrest⟩
          refine ⟨hnodup, fun i hi => ⟨(hrest i hi).1, ?_, (hrest i hi).2⟩⟩
          rintro rfl
          exact hnot hi

/-- What `validate_projection` accepts: distinct columns of the schema. -/
theorem validateProjection_eq_ok {schema : Schema} {projection : List Nat} :
    validateProjection schema projection = .ok () ↔
      projection.Nodup ∧ ∀ i ∈ projection, i < schema.size := by
  rw [validateProjection, checkProjection_eq_ok]
  simp

/-- A projection that passed `validate_projection`. -/
theorem validateProjection_ok {schema : Schema} {projection : List Nat}
    (h : validateProjection schema projection = .ok ()) :
    projection.Nodup ∧ ∀ i ∈ projection, i < schema.size :=
  validateProjection_eq_ok.mp h

/-! ## Key ranges -/

/-- The half-open range `[from, to)`; an absent bound is unbounded. -/
structure KeyRange where
  fromKey : Option Key
  toKey : Option Key
  deriving DecidableEq

namespace KeyRange

def full : KeyRange := ⟨none, none⟩

def contains (range : KeyRange) (key : Key) : Bool :=
  if range.fromKey.any fun f => decide (key < f) then false
  else if range.toKey.any fun t => decide (t ≤ key) then false
  else true

/-- No bound is absent from the wrong side: `from <= to` where both are given. -/
def Ordered (range : KeyRange) : Prop :=
  ∀ f ∈ range.fromKey, ∀ t ∈ range.toKey, f ≤ t

theorem contains_iff {range : KeyRange} {key : Key} :
    range.contains key = true ↔
      (∀ f ∈ range.fromKey, f ≤ key) ∧ (∀ t ∈ range.toKey, key < t) := by
  unfold contains
  cases range.fromKey <;> cases range.toKey <;> simp [Option.any]

/-- Membership as the two bound tests an iterator pair makes. -/
theorem contains_eq (range : KeyRange) (key : Key) :
    range.contains key =
      (SortedMap.atOrAfter range.fromKey key && SortedMap.before range.toKey key) := by
  unfold contains SortedMap.atOrAfter SortedMap.before
  cases range.fromKey with
  | none =>
    cases range.toKey with
    | none => simp
    | some t => by_cases h : t ≤ key <;> simp [h, not_lt.mpr, not_le.mp]
  | some f =>
    by_cases hf : key < f
    · simp [hf]
    · cases range.toKey with
      | none => simp [hf, not_lt.mp hf]
      | some t => by_cases h : t ≤ key <;> simp [hf, not_lt.mp hf, h, not_lt.mpr, not_le.mp]

@[simp] theorem contains_full (key : Key) : full.contains key = true := by
  simp [full, contains]

end KeyRange

/-! ## Configuration -/

structure StorageConfig where
  rootPath : Bytes
  memtableThreshold : Nat := 10000
  level0CompactionTrigger : Nat := 4
  sizeRatio : Nat := 10
  baseLevelSizeBytes : Nat := 256 * 1024 * 1024
  rowToColumnLevel : Nat := 2
  sparseIndexStep : Nat := 0
  sparseIndexTargetBytes : Nat := 1024 * 1024
  sparseIndexMinStep : Nat := 1
  sparseIndexMaxStep : Nat := 4096
  rowBlockTargetBytes : Nat := 64 * 1024
  columnBlockTargetRows : Nat := 8192
  columnBlockTargetBytes : Nat := 64 * 1024
  isCompactionBackground : Bool := true
  deriving DecidableEq

end Storage

end Htap

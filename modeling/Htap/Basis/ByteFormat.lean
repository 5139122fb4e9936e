import Mathlib

/-!
Byte formats: little-endian words, a parser over a byte suffix, and the
relation saying that a parser reads exactly what an encoder wrote. The rules
at the end compose that relation over sequencing, mapping and repetition, so
a record's round trip follows from the round trips of its fields.
-/

namespace ByteFormat

/-- `width` little-endian bytes of `value`; higher digits are dropped. -/
def leBytes : Nat → Nat → List UInt8
  | 0, _ => []
  | width + 1, value => UInt8.ofNat (value % 256) :: leBytes width (value / 256)

/-- The number a little-endian byte string denotes. -/
def leValue : List UInt8 → Nat
  | [] => 0
  | byte :: rest => byte.toNat + 256 * leValue rest

@[simp] theorem length_leBytes (width value : Nat) : (leBytes width value).length = width := by
  induction width generalizing value with
  | zero => rfl
  | succ width ih => simp [leBytes, ih]

theorem leValue_leBytes (width value : Nat) :
    leValue (leBytes width value) = value % 256 ^ width := by
  induction width generalizing value with
  | zero => simp [leBytes, leValue, Nat.mod_one]
  | succ width ih =>
    have hbyte : (UInt8.ofNat (value % 256)).toNat = value % 256 := by
      rw [UInt8.toNat_ofNat']
      omega
    rw [leBytes, leValue, ih, hbyte, pow_succ', Nat.mod_mul]

theorem leValue_leBytes_of_lt {width value : Nat} (h : value < 256 ^ width) :
    leValue (leBytes width value) = value := by
  rw [leValue_leBytes, Nat.mod_eq_of_lt h]

/-- Parsers consume a prefix of the bytes that are left and may fail. -/
def Parser (ε α : Type) : Type := List UInt8 → Except ε (α × List UInt8)

namespace Parser

variable {ε α β : Type}

def run (p : Parser ε α) (bytes : List UInt8) : Except ε (α × List UInt8) := p bytes

protected def pure (a : α) : Parser ε α := fun bytes => .ok (a, bytes)

protected def bind (p : Parser ε α) (f : α → Parser ε β) : Parser ε β := fun bytes =>
  match p bytes with
  | .ok (a, rest) => f a rest
  | .error e => .error e

instance : Monad (Parser ε) where
  pure := Parser.pure
  bind := Parser.bind

instance : LawfulMonad (Parser ε) :=
  LawfulMonad.mk' (Parser ε)
    (fun p => by
      funext bytes
      change Parser.bind p _ bytes = p bytes
      unfold Parser.bind
      cases p bytes <;> rfl)
    (fun _ _ => rfl)
    (fun p f g => by
      funext bytes
      change Parser.bind (Parser.bind p f) g bytes = Parser.bind p _ bytes
      unfold Parser.bind
      cases p bytes <;> rfl)

def fail (e : ε) : Parser ε α := fun _ => .error e

/-- The next `count` bytes, or `e` when fewer are left. -/
def bytes (e : ε) (count : Nat) : Parser ε (List UInt8) := fun left =>
  if count ≤ left.length then .ok (left.take count, left.drop count) else .error e

/-- A little-endian word of `width` bytes. -/
def word (e : ε) (width : Nat) : Parser ε Nat := do
  let raw ← bytes e width
  return leValue raw

/-- Run `p` exactly `count` times. -/
def times (p : Parser ε α) : Nat → Parser ε (List α)
  | 0 => return []
  | count + 1 => do
    let first ← p
    let rest ← times p count
    return first :: rest

end Parser

/-- `p` reads `a` from `written`, whatever follows, and consumes all of it. -/
def Reads {ε α : Type} (p : Parser ε α) (written : List UInt8) (a : α) : Prop :=
  ∀ rest, p.run (written ++ rest) = .ok (a, rest)

namespace Reads

variable {ε α β : Type}

theorem pure (a : α) : Reads (Pure.pure a : Parser ε α) [] a := fun _ => rfl

theorem bind {p : Parser ε α} {f : α → Parser ε β} {xs ys : List UInt8} {a : α} {b : β}
    (hp : Reads p xs a) (hf : Reads (f a) ys b) : Reads (p >>= f) (xs ++ ys) b := by
  intro rest
  have hfirst := hp (ys ++ rest)
  change Parser.bind p f (xs ++ ys ++ rest) = _
  simp only [Parser.run] at hfirst
  rw [List.append_assoc, Parser.bind, hfirst]
  exact hf rest

theorem congr {p : Parser ε α} {xs ys : List UInt8} {a b : α}
    (hp : Reads p xs a) (hbytes : xs = ys) (hvalue : a = b) : Reads p ys b := by
  subst hbytes hvalue
  exact hp

/-- A last field whose value is only repackaged. -/
theorem map {p : Parser ε α} {xs : List UInt8} {a : α} (f : α → β)
    (hp : Reads p xs a) : Reads (p >>= fun a => Pure.pure (f a)) xs (f a) :=
  (hp.bind (Reads.pure (f a))).congr (by simp) rfl

theorem bytes (e : ε) (raw : List UInt8) : Reads (Parser.bytes e raw.length) raw raw := by
  intro rest
  simp [Parser.run, Parser.bytes]

theorem bytes_of_length (e : ε) {raw : List UInt8} {count : Nat} (h : raw.length = count) :
    Reads (Parser.bytes e count) raw raw := by
  subst h
  exact bytes e raw

theorem word (e : ε) (width value : Nat) :
    Reads (Parser.word e width) (leBytes width value) (value % 256 ^ width) :=
  ((bytes_of_length e (length_leBytes width value)).map leValue).congr rfl
    (leValue_leBytes width value)

theorem word_of_lt (e : ε) {width value : Nat} (h : value < 256 ^ width) :
    Reads (Parser.word e width) (leBytes width value) value :=
  (word e width value).congr rfl (Nat.mod_eq_of_lt h)

/-- Records written one after another are read back one after another. -/
theorem times_map {p : Parser ε α} {write : β → List UInt8} {value : β → α} (items : List β)
    (hitem : ∀ b ∈ items, Reads p (write b) (value b)) :
    Reads (Parser.times p items.length) (items.flatMap write) (items.map value) := by
  induction items with
  | nil => exact Reads.pure []
  | cons b items ih =>
    have hrest := ih fun c hc => hitem c (List.mem_cons_of_mem b hc)
    rw [List.flatMap_cons]
    exact (hitem b List.mem_cons_self).bind (hrest.map (value b :: ·))

theorem times {p : Parser ε α} {write : α → List UInt8} (items : List α)
    (hitem : ∀ a ∈ items, Reads p (write a) a) :
    Reads (Parser.times p items.length) (items.flatMap write) items :=
  (times_map items hitem).congr rfl (List.map_id' items)

end Reads

/-! ## Fixed-size records -/

section Records

variable {α β : Type} {write : α → List β} {size : Nat}

theorem length_records (items : List α) (hsize : ∀ a ∈ items, (write a).length = size) :
    (items.flatMap write).length = items.length * size := by
  induction items with
  | nil => simp
  | cons a items ih =>
    have hhead := hsize a List.mem_cons_self
    have htail := ih fun b hb => hsize b (List.mem_cons_of_mem a hb)
    simp only [List.flatMap_cons, List.length_append, List.length_cons, hhead, htail]
    ring

/-- Skipping whole records in the byte string skips them in the list. -/
theorem drop_records (items : List α) (hsize : ∀ a ∈ items, (write a).length = size)
    (count : Nat) :
    (items.flatMap write).drop (count * size) = (items.drop count).flatMap write := by
  induction items generalizing count with
  | nil => simp
  | cons a items ih =>
    have hhead := hsize a List.mem_cons_self
    have htail := ih fun b hb => hsize b (List.mem_cons_of_mem a hb)
    cases count with
    | zero => simp
    | succ count =>
      rw [List.flatMap_cons, List.drop_append, hhead,
        List.drop_of_length_le (by rw [hhead]; nlinarith),
        List.nil_append, List.drop_succ_cons, ← htail]
      congr 1
      rw [Nat.succ_mul]
      omega

theorem take_records (items : List α) (hsize : ∀ a ∈ items, (write a).length = size)
    (count : Nat) :
    (items.flatMap write).take (count * size) = (items.take count).flatMap write := by
  induction items generalizing count with
  | nil => simp
  | cons a items ih =>
    have hhead := hsize a List.mem_cons_self
    have htail := ih fun b hb => hsize b (List.mem_cons_of_mem a hb)
    cases count with
    | zero => simp
    | succ count =>
      rw [List.flatMap_cons, List.take_append, hhead,
        List.take_of_length_le (by rw [hhead]; nlinarith),
        List.take_succ_cons, List.flatMap_cons, ← htail]
      congr 2
      rw [Nat.succ_mul]
      omega

/-- A byte window aligned on records is the window of the records. -/
theorem window_records (items : List α) (hsize : ∀ a ∈ items, (write a).length = size)
    (first count : Nat) :
    ((items.flatMap write).drop (first * size)).take (count * size) =
      ((items.drop first).take count).flatMap write := by
  rw [drop_records items hsize,
    take_records _ fun a ha => hsize a (List.mem_of_mem_drop ha)]

end Records

/-! ## Parsers of a fixed width -/

/-- `p` reads every byte string of `size` bytes as some value. -/
def Total {ε α : Type} (p : Parser ε α) (size : Nat) : Prop :=
  ∀ raw : List UInt8, raw.length = size → ∃ a, Reads p raw a

namespace Total

variable {ε α β : Type}

theorem pure (a : α) : Total (Pure.pure a : Parser ε α) 0 := by
  intro raw hraw
  rw [List.length_eq_zero_iff.mp hraw]
  exact ⟨a, Reads.pure a⟩

theorem bind {p : Parser ε α} {f : α → Parser ε β} {m n : Nat} (hp : Total p m)
    (hf : ∀ a, Total (f a) n) : Total (p >>= f) (m + n) := by
  intro raw hraw
  obtain ⟨a, ha⟩ := hp (raw.take m) (by rw [List.length_take]; omega)
  obtain ⟨b, hb⟩ := hf a (raw.drop m) (by rw [List.length_drop]; omega)
  exact ⟨b, (ha.bind hb).congr (List.take_append_drop m raw) rfl⟩

theorem map {p : Parser ε α} {m : Nat} (f : α → β) (hp : Total p m) :
    Total (p >>= fun a => Pure.pure (f a)) m :=
  hp.bind fun a => Total.pure (f a)

theorem bytes (e : ε) (size : Nat) : Total (Parser.bytes e size) size :=
  fun raw hraw => ⟨raw, Reads.bytes_of_length e hraw⟩

theorem word (e : ε) (width : Nat) : Total (Parser.word e width) width :=
  (bytes e width).map leValue

/-- The first bytes of a file, cut into records that are read one by one. -/
theorem exists_records {p : Parser ε α} {size : Nat} (hp : Total p size) (count : Nat)
    {file : List UInt8} (h : count * size ≤ file.length) :
    ∃ records : List (List UInt8 × α), records.length = count ∧
      (∀ r ∈ records, r.1.length = size ∧ Reads p r.1 r.2) ∧
      file.take (count * size) = records.flatMap Prod.fst := by
  induction count generalizing file with
  | zero => exact ⟨[], rfl, by simp, by simp⟩
  | succ count ih =>
    rw [Nat.succ_mul, Nat.add_comm] at h
    obtain ⟨a, ha⟩ := hp (file.take size) (by rw [List.length_take]; omega)
    obtain ⟨records, hlength, hreads, hbytes⟩ := @ih (file.drop size)
      (by rw [List.length_drop]; omega)
    refine ⟨(file.take size, a) :: records, by simp [hlength], ?_, ?_⟩
    · intro r hr
      rcases List.mem_cons.mp hr with rfl | hin
      · exact ⟨by rw [List.length_take]; omega, ha⟩
      · exact hreads r hin
    · rw [Nat.succ_mul, Nat.add_comm, List.take_add, hbytes, List.flatMap_cons]

end Total

theorem Parser.run_bind_eq_ok {ε α β : Type} {p : Parser ε α} {f : α → Parser ε β}
    {raw rest : List UInt8} {b : β} :
    (p >>= f).run raw = .ok (b, rest) ↔
      ∃ a left, p.run raw = .ok (a, left) ∧ (f a).run left = .ok (b, rest) := by
  change Parser.bind p f raw = _ ↔ ∃ a left, p raw = _ ∧ _
  unfold Parser.bind
  cases hp : p raw with
  | error e => simp
  | ok first =>
    obtain ⟨a, left⟩ := first
    simp [Parser.run]

theorem Parser.length_of_run_bytes {ε : Type} {e : ε} {count : Nat} {raw a rest : List UInt8}
    (h : (Parser.bytes e count).run raw = .ok (a, rest)) : a.length = count := by
  unfold Parser.run Parser.bytes at h
  split at h
  · rename_i hroom
    cases h
    exact List.length_take_of_le hroom
  · cases h

/-- Repackaging every value after reading it, or all of them at the end. -/
theorem Parser.times_bind_pure {ε α β : Type} (p : Parser ε α) (f : α → β) (count : Nat) :
    Parser.times (p >>= fun a => Pure.pure (f a)) count =
      (Parser.times p count >>= fun items => Pure.pure (items.map f)) := by
  induction count with
  | zero => rfl
  | succ count ih =>
    simp only [Parser.times, ih, bind_assoc, pure_bind, List.map_cons]

/-- What a parser says of each value it reads holds of every repetition. -/
theorem forall_of_times {ε α : Type} {p : Parser ε α} {P : α → Prop}
    (hp : ∀ raw a rest, p.run raw = .ok (a, rest) → P a) {count : Nat} {raw rest : List UInt8}
    {items : List α} (h : (Parser.times p count).run raw = .ok (items, rest)) :
    ∀ a ∈ items, P a := by
  induction count generalizing raw rest items with
  | zero =>
    cases h
    simp
  | succ count ih =>
    obtain ⟨first, left, hfirst, hmore⟩ := Parser.run_bind_eq_ok.mp h
    obtain ⟨more, left', hmore, hpure⟩ := Parser.run_bind_eq_ok.mp hmore
    cases hpure
    intro a ha
    rcases List.mem_cons.mp ha with rfl | hin
    · exact hp raw a left hfirst
    · exact ih hmore a hin

end ByteFormat

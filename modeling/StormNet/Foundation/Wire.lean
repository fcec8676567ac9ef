/-
  Foundation/Wire.lean --- messages as lists of numbered fields.

  A number is written in groups of seven bits, the last group first (`varint`).  A field is a
  number with a value; a message is the concatenation of its fields, and a reader takes the
  fields one after the other, whatever they are.  `readFields_writeFields` is the round trip;
  a message reads a field by folding over the list, so it sees the last one of a number.

  Nothing in this file names the repository.
-/
import Mathlib.Data.List.Basic

set_option autoImplicit false

namespace StormNet.Foundation.Wire

abbrev Bytes := List UInt8

/-! ## Numbers -/

/-- At most `fuel` groups of `n`. -/
def varintFuel : Nat → Nat → Bytes
  | 0, _ => []
  | fuel + 1, n =>
      if n < 128 then [UInt8.ofNat n]
      else UInt8.ofNat (n % 128 + 128) :: varintFuel fuel (n / 128)

/-- The groups of `n`; every one but the last is marked. -/
def varint (n : Nat) : Bytes := varintFuel (n + 1) n

/-- Take a number off the front. -/
def readVarint : Bytes → Option (Nat × Bytes)
  | [] => none
  | b :: bs =>
      if b.toNat < 128 then some (b.toNat, bs)
      else (readVarint bs).map fun (n, rest) => (b.toNat - 128 + 128 * n, rest)

theorem readVarint_varintFuel {fuel n : Nat} (h : n < fuel) (rest : Bytes) :
    readVarint (varintFuel fuel n ++ rest) = some (n, rest) := by
  induction fuel generalizing n with
  | zero => exact absurd h (Nat.not_lt_zero n)
  | succ fuel ih =>
    rw [varintFuel]
    split
    · rename_i hsmall
      have hbyte : (UInt8.ofNat n).toNat = n := by
        rw [UInt8.toNat_ofNat']
        omega
      rw [List.singleton_append, readVarint, hbyte, if_pos hsmall]
    · rename_i hlarge
      have hbyte : (UInt8.ofNat (n % 128 + 128)).toNat = n % 128 + 128 := by
        rw [UInt8.toNat_ofNat']
        omega
      rw [List.cons_append, readVarint, hbyte, if_neg (by omega), ih (by omega), Option.map_some]
      have hsum : n % 128 + 128 - 128 + 128 * (n / 128) = n := by omega
      simp only [hsum]

theorem readVarint_varint (n : Nat) (rest : Bytes) :
    readVarint (varint n ++ rest) = some (n, rest) :=
  readVarint_varintFuel (Nat.lt_succ_self n) rest

theorem varint_ne_nil (n : Nat) : varint n ≠ [] := by
  rw [varint, varintFuel]
  split <;> exact List.cons_ne_nil _ _

/-! ## Fields -/

/-- The value of a field. -/
inductive Value where
  | varint (n : Nat)
  | fixed64 (bs : Bytes)
  | bytes (bs : Bytes)
  | fixed32 (bs : Bytes)
  deriving DecidableEq, Repr

structure Field where
  number : Nat
  value : Value
  deriving DecidableEq, Repr

/-- The kind of a value, as the tag of its field has it. -/
def Value.kind : Value → Nat
  | .varint _ => 0
  | .fixed64 _ => 1
  | .bytes _ => 2
  | .fixed32 _ => 5

def Value.write : Value → Bytes
  | .varint n => Wire.varint n
  | .fixed64 bs => bs
  | .bytes bs => Wire.varint bs.length ++ bs
  | .fixed32 bs => bs

/-- A value of a fixed size has it. -/
def Value.Sized : Value → Prop
  | .fixed64 bs => bs.length = 8
  | .fixed32 bs => bs.length = 4
  | _ => True

/-- Take `n` bytes off the front. -/
def readBytes (n : Nat) (bs : Bytes) : Option (Bytes × Bytes) :=
  if n ≤ bs.length then some (bs.take n, bs.drop n) else none

/-- Take a value of the kind off the front. -/
def readValue (kind : Nat) (bs : Bytes) : Option (Value × Bytes) :=
  match kind with
  | 0 => (readVarint bs).map fun (n, rest) => (.varint n, rest)
  | 1 => (readBytes 8 bs).map fun (v, rest) => (.fixed64 v, rest)
  | 2 => (readVarint bs).bind fun (n, rest) =>
      (readBytes n rest).map fun (v, rest) => (.bytes v, rest)
  | 5 => (readBytes 4 bs).map fun (v, rest) => (.fixed32 v, rest)
  | _ => none

theorem readBytes_append {n : Nat} {bs : Bytes} (h : bs.length = n) (rest : Bytes) :
    readBytes n (bs ++ rest) = some (bs, rest) := by
  rw [readBytes, List.length_append, if_pos (by omega), List.take_left' h, List.drop_left' h]

theorem readValue_write {v : Value} (h : v.Sized) (rest : Bytes) :
    readValue v.kind (v.write ++ rest) = some (v, rest) := by
  cases v with
  | varint n => simp only [Value.kind, Value.write, readValue, readVarint_varint, Option.map_some]
  | fixed64 bs =>
    have hlen : bs.length = 8 := h
    simp only [Value.kind, Value.write, readValue, readBytes_append hlen, Option.map_some]
  | bytes bs =>
    simp only [Value.kind, Value.write, readValue, List.append_assoc, readVarint_varint,
      Option.bind_some, readBytes_append rfl, Option.map_some]
  | fixed32 bs =>
    have hlen : bs.length = 4 := h
    simp only [Value.kind, Value.write, readValue, readBytes_append hlen, Option.map_some]

def Field.write (f : Field) : Bytes := varint (f.number * 8 + f.value.kind) ++ f.value.write

/-- Take a field off the front. -/
def readField (bs : Bytes) : Option (Field × Bytes) :=
  (readVarint bs).bind fun (tag, rest) =>
    (readValue (tag % 8) rest).map fun (v, rest) => (⟨tag / 8, v⟩, rest)

theorem Value.kind_lt (v : Value) : v.kind < 8 := by
  cases v <;> simp only [kind] <;> omega

theorem readField_write {f : Field} (h : f.value.Sized) (rest : Bytes) :
    readField (f.write ++ rest) = some (f, rest) := by
  have hkind := f.value.kind_lt
  have hmod : (f.number * 8 + f.value.kind) % 8 = f.value.kind := by omega
  have hdiv : (f.number * 8 + f.value.kind) / 8 = f.number := by omega
  rw [readField, Field.write, List.append_assoc, readVarint_varint]
  simp only [Option.bind_some, hmod, hdiv, readValue_write h, Option.map_some]

theorem Field.write_ne_nil (f : Field) : f.write ≠ [] :=
  List.append_ne_nil_of_left_ne_nil (varint_ne_nil _) _

/-! ## Messages -/

def writeFields (fs : List Field) : Bytes := (fs.map Field.write).flatten

/-- At most `fuel` fields. -/
def readFieldsFuel : Nat → Bytes → Option (List Field)
  | _, [] => some []
  | 0, _ => none
  | fuel + 1, b :: bs =>
      (readField (b :: bs)).bind fun (f, rest) => (readFieldsFuel fuel rest).map (f :: ·)

/-- The fields of a message; each takes a byte. -/
def readFields (bs : Bytes) : Option (List Field) := readFieldsFuel bs.length bs

theorem readFieldsFuel_writeFields {fs : List Field} (h : ∀ f ∈ fs, f.value.Sized) {fuel : Nat}
    (hfuel : (writeFields fs).length ≤ fuel) :
    readFieldsFuel fuel (writeFields fs) = some fs := by
  induction fs generalizing fuel with
  | nil =>
    unfold writeFields
    rw [List.map_nil, List.flatten_nil]
    cases fuel <;> rfl
  | cons f fs ih =>
    have hall : writeFields (f :: fs) = f.write ++ writeFields fs := by
      rw [writeFields, List.map_cons, List.flatten_cons]
      rfl
    have hread := readField_write (h f List.mem_cons_self) (writeFields fs)
    rw [hall, List.length_append] at hfuel
    rw [hall]
    obtain ⟨b, bs, hbs⟩ := List.exists_cons_of_ne_nil f.write_ne_nil
    rw [hbs] at hread hfuel ⊢
    rw [List.length_cons] at hfuel
    cases fuel with
    | zero => omega
    | succ fuel =>
      have hrest := ih (fun g hg => h g (List.mem_cons_of_mem _ hg))
        (show (writeFields fs).length ≤ fuel by omega)
      rw [List.cons_append] at hread ⊢
      rw [readFieldsFuel, hread]
      simp only [Option.bind_some, hrest, Option.map_some]

/-- **The round trip.** -/
theorem readFields_writeFields {fs : List Field} (h : ∀ f ∈ fs, f.value.Sized) :
    readFields (writeFields fs) = some fs :=
  readFieldsFuel_writeFields h (Nat.le_refl _)

end StormNet.Foundation.Wire

import RiskClaw.LittleEndian
import Mathlib.Data.Vector.Basic
import Mathlib.Logic.Equiv.Basic

/-!
# Formats of a fixed size

A format writes each value of a type in the same number of bytes, and reads a
value from the front of a text and leaves the rest. A text is read as a value
exactly when it begins with what is written for it. Formats of records are put
together from those of their fields.
-/

namespace RiskClaw.FixedFormats

open LittleEndian

/-- A format of a fixed size. -/
structure Format (α : Type*) where
  /-- Bytes of a value. -/
  size : ℕ
  /-- The bytes. -/
  write : α → List UInt8
  /-- A value at the front of a text, with the rest. -/
  read : List UInt8 → Option (α × List UInt8)
  /-- Every value takes the size. -/
  write_length : ∀ a, (write a).length = size
  /-- Exactly what is written for a value is read as it. -/
  read_iff : ∀ {text rest : List UInt8} {a : α}, read text = some (a, rest) ↔ text = write a ++ rest

namespace Format

variable {α β : Type*}

@[simp] theorem read_write (f : Format α) (a : α) (rest : List UInt8) :
    f.read (f.write a ++ rest) = some (a, rest) := f.read_iff.mpr rfl

@[simp] theorem read_written (f : Format α) (a : α) : f.read (f.write a) = some (a, []) :=
  f.read_iff.mpr (List.append_nil _).symm

/-- One byte. -/
def byte : Format UInt8 where
  size := 1
  write b := [b]
  read
    | [] => none
    | b :: rest => some (b, rest)
  write_length _ := rfl
  read_iff {text rest a} := by
    cases text with
    | nil => simp
    | cons b text => simp

/-- An array of bytes. -/
def bytes (n : ℕ) : Format (Vector UInt8 n) where
  size := n
  write v := v.toList
  read text :=
    if h : n ≤ text.length then
      some (⟨(text.take n).toArray, by simp [h]⟩, text.drop n)
    else none
  write_length v := v.length_toList
  read_iff {text rest v} := by
    constructor
    · intro h
      split_ifs at h with hlength
      obtain ⟨rfl, rfl⟩ := Prod.mk.inj (Option.some.inj h)
      exact (List.take_append_drop n text).symm
    · rintro rfl
      have hlength : v.toList.length = n := v.length_toList
      have hle : n ≤ (v.toList ++ rest).length := by
        rw [List.length_append, hlength]
        omega
      rw [dif_pos hle, List.drop_left' hlength]
      have htake : (v.toList ++ rest).take n = v.toList := List.take_left' hlength
      refine congrArg some (Prod.ext (Vector.toArray_inj.mp ?_) rfl)
      change ((v.toList ++ rest).take n).toArray = v.toArray
      rw [htake]
      exact v.toArray.toArray_toList

/-- One value after another. -/
def pair (f : Format α) (g : Format β) : Format (α × β) where
  size := f.size + g.size
  write p := f.write p.1 ++ g.write p.2
  read text := (f.read text).bind fun r => (g.read r.2).map fun s => ((r.1, s.1), s.2)
  write_length p := by rw [List.length_append, f.write_length, g.write_length]
  read_iff {text rest p} := by
    constructor
    · intro h
      obtain ⟨⟨a, middle⟩, ha, h⟩ := Option.bind_eq_some_iff.mp h
      obtain ⟨⟨b, rest'⟩, hb, h⟩ := Option.map_eq_some_iff.mp h
      cases h
      have hmiddle : middle = g.write b ++ rest' := g.read_iff.mp hb
      rw [f.read_iff.mp ha, hmiddle, ← List.append_assoc]
    · rintro rfl
      rw [List.append_assoc, f.read_write, Option.bind_some, g.read_write]
      rfl

/-- Values that stand for some of another type. -/
def via (f : Format α) (out : β → α) (back : α → Option β)
    (h : ∀ {a b}, back a = some b ↔ a = out b) : Format β where
  size := f.size
  write b := f.write (out b)
  read text := (f.read text).bind fun r => (back r.1).map fun b => (b, r.2)
  write_length b := f.write_length (out b)
  read_iff {text rest b} := by
    constructor
    · intro hread
      obtain ⟨⟨a, rest'⟩, ha, hread⟩ := Option.bind_eq_some_iff.mp hread
      obtain ⟨b', hb, hread⟩ := Option.map_eq_some_iff.mp hread
      cases hread
      have hout : a = out b := h.mp hb
      rw [f.read_iff.mp ha, hout]
    · rintro rfl
      rw [f.read_write, Option.bind_some, h.mpr rfl]
      rfl

/-- Values that stand for all of another type. -/
def equiv (f : Format α) (e : β ≃ α) : Format β :=
  f.via e (fun a => some (e.symm a)) (by
    intro a b
    rw [Option.some.injEq, Equiv.symm_apply_eq])

/-- A value after a tag. -/
def tagged (tag : List UInt8) (f : Format α) : Format α where
  size := tag.length + f.size
  write a := tag ++ f.write a
  read text := if tag <+: text then f.read (text.drop tag.length) else none
  write_length a := by rw [List.length_append, f.write_length]
  read_iff {text rest a} := by
    constructor
    · intro h
      split_ifs at h with htag
      obtain ⟨behind, rfl⟩ := htag
      rw [List.drop_left] at h
      rw [f.read_iff.mp h, List.append_assoc]
    · rintro rfl
      rw [List.append_assoc, if_pos (List.prefix_append _ _), List.drop_left, f.read_write]

/-- A natural number in little-endian bytes. -/
def number (k : ℕ) : Format (Fin (256 ^ k)) where
  size := k
  write n := toBytes k n
  read text :=
    if h : k ≤ text.length then
      some (⟨ofBytes (text.take k), ofBytes_lt (by simp [h])⟩, text.drop k)
    else none
  write_length n := toBytes_length k n
  read_iff {text rest n} := by
    constructor
    · intro h
      split_ifs at h with hlength
      obtain ⟨rfl, rfl⟩ := Prod.mk.inj (Option.some.inj h)
      have htake : (text.take k).length = k := by simp [hlength]
      have hback := toBytes_ofBytes htake
      rw [hback, List.take_append_drop]
    · rintro rfl
      have hlength : (toBytes k n).length = k := toBytes_length k n
      have hle : k ≤ (toBytes k n ++ rest).length := by
        rw [List.length_append, hlength]
        omega
      have htake : (toBytes k n ++ rest).take k = toBytes k n := List.take_left' hlength
      rw [dif_pos hle, List.drop_left' hlength]
      refine congrArg some (Prod.ext (Fin.ext ?_) rfl)
      change ofBytes ((toBytes k n ++ rest).take k) = n
      rw [htake, ofBytes_toBytes_of_lt n.isLt]

end Format

end RiskClaw.FixedFormats

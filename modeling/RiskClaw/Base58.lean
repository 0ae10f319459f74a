import Mathlib.Data.Nat.Digits.Lemmas
import Mathlib.Data.List.TakeWhile

/-!
# Base58

A sequence of digits in one base is written in another one. Leading zeros are
kept one by one, what follows them is the same number in both bases. So the way
back through the first base restores the digits, and the text of a sequence of
bytes is read as these bytes.
-/

namespace RiskClaw.Base58

section Radix

variable {b c : ℕ} {ds : List ℕ}

/-- The number of some digits, the highest one first. -/
def number (b : ℕ) (ds : List ℕ) : ℕ := Nat.ofDigits b ds.reverse

/-- The digits of a number, the highest one first. -/
def digits (b n : ℕ) : List ℕ := (Nat.digits b n).reverse

/-- The zeros in front. -/
def zeros (ds : List ℕ) : List ℕ := ds.takeWhile fun d => d = 0

/-- What follows the zeros in front. -/
def significant (ds : List ℕ) : List ℕ := ds.dropWhile fun d => d = 0

/-- Digits of the first base in the second one. -/
def recode (b c : ℕ) (ds : List ℕ) : List ℕ := zeros ds ++ digits c (number b ds)

/-- No zero stands in front. -/
def Led (ds : List ℕ) : Prop := ds.head? ≠ some 0

theorem digits_led (c n : ℕ) : Led (digits c n) := by
  intro hzero
  rw [digits, List.head?_reverse] at hzero
  by_cases hn : n = 0
  · subst hn
    rw [Nat.digits_zero] at hzero
    cases hzero
  · have hne : Nat.digits c n ≠ [] := Nat.digits_ne_nil_iff_ne_zero.mpr hn
    rw [List.getLast?_eq_some_getLast hne] at hzero
    exact Nat.getLast_digit_ne_zero c hn (Option.some.inj hzero)

theorem significant_led (ds : List ℕ) : Led (significant ds) := by
  intro hzero
  have hhead := List.head?_dropWhile_not (fun d => decide (d = 0)) ds
  unfold significant at hzero
  rw [hzero] at hhead
  simp at hhead

/-- Digits without zeros in front are those of their number. -/
theorem digits_number (hb : 1 < b) (hds : ∀ d ∈ ds, d < b) (hled : Led ds) :
    digits b (number b ds) = ds := by
  have hlast : ∀ h : ds.reverse ≠ [], ds.reverse.getLast h ≠ 0 := by
    intro h hzero
    refine hled ?_
    rw [← List.reverse_reverse ds, List.head?_reverse, List.getLast?_eq_some_getLast h, hzero]
  rw [digits, number, Nat.digits_ofDigits b hb _ (fun d hd => hds d (List.mem_reverse.mp hd)) hlast,
    List.reverse_reverse]

theorem number_digits (b n : ℕ) : number b (digits b n) = n := by
  rw [number, digits, List.reverse_reverse, Nat.ofDigits_digits]

theorem zeros_eq (ds : List ℕ) : zeros ds = List.replicate (zeros ds).length 0 := by
  refine List.eq_replicate_length.mpr fun d hd => ?_
  have hzero := List.mem_takeWhile_imp (p := fun d => decide (d = 0)) hd
  exact of_decide_eq_true hzero

/-- Zeros in front do not change the number. -/
theorem number_zeros (b : ℕ) (xs ds : List ℕ) : number b (zeros xs ++ ds) = number b ds := by
  rw [zeros_eq, number, number, List.reverse_append, List.reverse_replicate,
    Nat.ofDigits_append_replicate_zero]

/-- Zeros and then digits that do not begin with one. -/
theorem zeros_append (xs : List ℕ) (hled : Led ds) : zeros (zeros xs ++ ds) = zeros xs := by
  have hall : ∀ d ∈ zeros xs, decide (d = 0) = true := fun d hd =>
    List.mem_takeWhile_imp (p := fun d => decide (d = 0)) hd
  have hnone : ds.takeWhile (fun d => decide (d = 0)) = [] := by
    cases ds with
    | nil => rfl
    | cons d ds =>
      refine List.takeWhile_cons_of_neg ?_
      intro hd
      exact hled (congrArg some (of_decide_eq_true hd))
  calc zeros (zeros xs ++ ds)
      = zeros xs ++ ds.takeWhile (fun d => decide (d = 0)) :=
        List.takeWhile_append_of_pos hall
    _ = zeros xs := by rw [hnone, List.append_nil]

theorem zeros_significant (ds : List ℕ) : zeros ds ++ significant ds = ds :=
  List.takeWhile_append_dropWhile

/-- The way back restores the digits. -/
theorem recode_recode (hb : 1 < b) (c : ℕ) (hds : ∀ d ∈ ds, d < b) :
    recode c b (recode b c ds) = ds := by
  have hsame : number b ds = number b (significant ds) := by
    rw [← number_zeros b ds (significant ds), zeros_significant]
  have hrest : ∀ d ∈ significant ds, d < b := fun d hd =>
    hds d ((List.dropWhile_suffix _).subset hd)
  rw [recode, recode, zeros_append ds (digits_led c _), number_zeros, number_digits, hsame,
    digits_number hb hrest (significant_led ds), zeros_significant]

theorem recode_lt (hc : 1 < c) (b : ℕ) (ds : List ℕ) : ∀ d ∈ recode b c ds, d < c := by
  intro d hd
  rcases List.mem_append.mp hd with hd | hd
  · rw [zeros_eq] at hd
    rw [List.eq_of_mem_replicate hd]
    omega
  · exact Nat.digits_lt_base hc (List.mem_reverse.mp hd)

end Radix

section Text

/-- The symbols of the digits. -/
def alphabet : List Char :=
  "123456789ABCDEFGHJKLMNPQRSTUVWXYZabcdefghijkmnopqrstuvwxyz".toList

/-- The symbol of a digit. -/
def symbol (d : ℕ) : Char := alphabet.getD d '1'

/-- The digit of a symbol. -/
def digit (c : Char) : Option ℕ := if c ∈ alphabet then some (alphabet.idxOf c) else none

/-- The text of some bytes. -/
def encode (bytes : List UInt8) : List Char := (recode 256 58 (bytes.map UInt8.toNat)).map symbol

/-- The bytes of a text, or nothing where it has another symbol. -/
def decode (text : List Char) : Option (List UInt8) :=
  (text.mapM digit).map fun ds => (recode 58 256 ds).map UInt8.ofNat

theorem symbol_mem (d : ℕ) : symbol d ∈ alphabet := by
  rw [symbol, List.getD_eq_getElem?_getD]
  cases hsymbol : alphabet[d]? with
  | none => decide
  | some c => exact List.mem_of_getElem? hsymbol

theorem encode_mem (bytes : List UInt8) : ∀ c ∈ encode bytes, c ∈ alphabet := by
  intro c hc
  obtain ⟨d, -, rfl⟩ := List.mem_map.mp hc
  exact symbol_mem d

theorem digit_symbol {d : ℕ} (h : d < 58) : digit (symbol d) = some d := by
  have hall : ∀ d < 58, digit (symbol d) = some d := by decide +kernel
  exact hall d h

theorem mapM_digit {ds : List ℕ} (h : ∀ d ∈ ds, d < 58) : (ds.map symbol).mapM digit = some ds := by
  induction ds with
  | nil => rfl
  | cons d ds ih =>
    have hhead := digit_symbol (h d List.mem_cons_self)
    have htail := ih fun e he => h e (List.mem_cons_of_mem _ he)
    rw [List.map_cons, List.mapM_cons, hhead, htail]
    rfl

/-- The text of some bytes is read as these bytes. -/
theorem decode_encode (bytes : List UInt8) : decode (encode bytes) = some bytes := by
  have hbytes : ∀ d ∈ bytes.map UInt8.toNat, d < 256 := by
    intro d hd
    obtain ⟨x, -, rfl⟩ := List.mem_map.mp hd
    exact x.toNat_lt
  have hback : (bytes.map UInt8.toNat).map UInt8.ofNat = bytes := by
    rw [List.map_map]
    exact (List.map_congr_left fun x _ => UInt8.ofNat_toNat).trans (List.map_id bytes)
  rw [decode, encode, mapM_digit (recode_lt (by decide) 256 _), Option.map_some,
    recode_recode (by decide) 58 hbytes, hback]

end Text

end RiskClaw.Base58

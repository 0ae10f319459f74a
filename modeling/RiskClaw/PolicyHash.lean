import RiskClaw.RiskPolicyControl
import RiskClaw.ThresholdPacking

/-!
# What the policy hash detects

`recompute_hash` folds the 64 bytes of the ciphertext and the 32 bytes of the
handle by XOR into 32 cells. Cell by cell the loop is the XOR of one column of
the 96 bytes, three bytes at a distance of 32. A window of 32 bytes meets every
column once, so no change inside one window can cancel.
-/

namespace RiskClaw.PolicyHash

open RiskPolicyProgram RiskPolicyControl SolanaRuntime ThresholdPacking

/-- XOR of the bytes whose position is congruent to `j`, the first byte
standing at position `k`. -/
def column (j : ℕ) : ℕ → List UInt8 → UInt8
  | _, [] => 0
  | k, b :: bytes => (if k % 32 = j then b else 0) ^^^ column j (k + 1) bytes

/-- The loop adds to every cell the column of its index. -/
theorem foldl_getElem (bytes : List UInt8) (k : ℕ) (cells : Vector UInt8 32) {j : ℕ}
    (hj : j < 32) :
    ((bytes.zipIdx k).foldl
      (fun tag entry => tag.set (entry.2 % 32) (tag[entry.2 % 32] ^^^ entry.1)) cells)[j] =
        cells[j] ^^^ column j k bytes := by
  induction bytes generalizing k cells with
  | nil => exact (UInt8.xor_zero).symm
  | cons b bytes ih =>
    rw [List.zipIdx_cons, List.foldl_cons, ih, Vector.getElem_set, column]
    by_cases hk : k % 32 = j
    · subst hk
      rw [if_pos rfl, if_pos rfl, UInt8.xor_assoc]
    · rw [if_neg hk, if_neg hk, UInt8.zero_xor]

theorem foldBytes_getElem (bytes : List UInt8) {j : ℕ} (hj : j < 32) :
    (foldBytes bytes)[j] = column j 0 bytes := by
  rw [foldBytes, foldl_getElem bytes 0 _ hj, Vector.getElem_replicate, UInt8.zero_xor]

theorem column_append (j k : ℕ) (xs ys : List UInt8) :
    column j k (xs ++ ys) = column j k xs ^^^ column j (k + xs.length) ys := by
  induction xs generalizing k with
  | nil => exact (UInt8.zero_xor).symm
  | cons x xs ih =>
    have hk : k + 1 + xs.length = k + (x :: xs).length := by
      rw [List.length_cons]
      omega
    rw [List.cons_append, column, column, ih, hk, UInt8.xor_assoc]

/-- A column meets a part of one row, from cell `i` on, in one byte at most. -/
theorem column_part {j : ℕ} (m i : ℕ) (part : List UInt8) (hpart : i + part.length ≤ 32) :
    column j (32 * m + i) part = if i ≤ j then part.getD (j - i) 0 else 0 := by
  induction part generalizing i with
  | nil => simp [column]
  | cons b part ih =>
    rw [List.length_cons] at hpart
    have hcell : (32 * m + i) % 32 = i := by omega
    rw [column, hcell, Nat.add_assoc, ih (i + 1) (by omega)]
    rcases Nat.lt_trichotomy i j with hlt | heq | hgt
    · obtain ⟨d, rfl⟩ := Nat.exists_eq_add_of_lt hlt
      have hpast : i + d + 1 - i = d + 1 := by omega
      have hrest : i + d + 1 - (i + 1) = d := by omega
      rw [if_neg hlt.ne, if_pos (by omega), if_pos hlt.le, hpast, hrest, UInt8.zero_xor,
        List.getD_cons_succ]
    · subst heq
      rw [if_pos rfl, if_neg (by omega), if_pos le_rfl, Nat.sub_self, UInt8.xor_zero,
        List.getD_cons_zero]
    · rw [if_neg hgt.ne', if_neg (by omega), if_neg (by omega), UInt8.xor_zero]

/-- A column meets a whole row in the byte of its index. -/
theorem column_row {j : ℕ} (m : ℕ) {row : List UInt8} (hrow : row.length = 32) :
    column j (32 * m) row = row.getD j 0 :=
  column_part m 0 row (by omega)

/-- On three rows every cell is the XOR of the bytes of its index. -/
theorem foldBytes_rows {first second third : List UInt8} (h₁ : first.length = 32)
    (h₂ : second.length = 32) (h₃ : third.length = 32) {j : ℕ} (hj : j < 32) :
    (foldBytes (first ++ (second ++ third)))[j] =
      first.getD j 0 ^^^ (second.getD j 0 ^^^ third.getD j 0) := by
  have hfirst := column_row (j := j) 0 h₁
  have hsecond := column_row (j := j) 1 h₂
  have hthird := column_row (j := j) 2 h₃
  rw [foldBytes_getElem _ hj, column_append, column_append, h₁, h₂]
  exact congrArg₂ _ hfirst (congrArg₂ _ hsecond hthird)

/-- The 96 bytes that are hashed. -/
def chained (p : RiskPolicy) : Vector UInt8 96 := p.ciphertextRef ++ p.arciumHandle

theorem chained_toList (p : RiskPolicy) :
    (chained p).toList = p.ciphertextRef.toList ++ p.arciumHandle.toList :=
  Vector.toList_append

/-- The ciphertext is the front of the hashed bytes. -/
theorem chained_front (p : RiskPolicy) : (chained p).toList.take 64 = p.ciphertextRef.toList := by
  rw [chained_toList]
  exact List.take_left' Vector.length_toList

/-- XOR of the three bytes in column `j`. -/
def columnOf (p : RiskPolicy) (j : ℕ) (hj : j < 32) : UInt8 :=
  (chained p)[j] ^^^ (chained p)[j + 32] ^^^ (chained p)[j + 64]

/-- Every cell of the hash is the XOR of its column. -/
theorem recomputeHash_getElem (p : RiskPolicy) {j : ℕ} (hj : j < 32) :
    p.recomputeHash.policyHash[j] = columnOf p j hj := by
  have hrows : p.ciphertextRef.toList ++ p.arciumHandle.toList =
      (chained p).toList.take 32 ++
        (((chained p).toList.drop 32).take 32 ++ ((chained p).toList.drop 32).drop 32) := by
    rw [List.take_append_drop, List.take_append_drop, chained_toList]
  have hlen : (chained p).toList.length = 96 := Vector.length_toList
  have hbyte : ∀ i (hi : i < 96), (chained p).toList[i]? = some (chained p)[i] := by
    intro i hi
    rw [List.getElem?_eq_getElem (by omega), Vector.getElem_toList]
  change (foldBytes (p.ciphertextRef.toList ++ p.arciumHandle.toList))[j] = _
  rw [hrows, foldBytes_rows (by simp [hlen]) (by simp [hlen]) (by simp [hlen]) hj, columnOf,
    UInt8.xor_assoc]
  simp only [List.getD_eq_getElem?_getD, List.getElem?_take_of_lt hj, List.getElem?_drop,
    List.drop_drop]
  have hthird : 32 + 32 + j = j + 64 := by omega
  rw [hthird, Nat.add_comm 32 j, hbyte j (by omega), hbyte (j + 32) (by omega),
    hbyte (j + 64) (by omega)]
  rfl

/-- In every reachable state each cell of a stored hash is the XOR of its column of the
stored bytes. -/
theorem policy_accounts_columns (pda : PdaScheme) (attempts : List Attempt) {address : Pubkey}
    {p : RiskPolicy} (hp : accountsAfter pda attempts address = some p) {j : ℕ} (hj : j < 32) :
    p.policyHash[j] = columnOf p j hj := by
  have hhash : p.policyHash = p.recomputeHash.policyHash := by
    obtain ⟨vault, w, -, rfl, rfl⟩ := (represents_run pda attempts address p).mp hp
    rfl
  rw [← recomputeHash_getElem p hj]
  exact congrArg (fun cells : Vector UInt8 32 => cells[j]) hhash

/-- Hashes are equal exactly when all columns are. -/
theorem policyHash_eq_iff {p q : RiskPolicy} :
    p.recomputeHash.policyHash = q.recomputeHash.policyHash ↔
      ∀ j (hj : j < 32), columnOf p j hj = columnOf q j hj := by
  constructor
  · intro h j hj
    rw [← recomputeHash_getElem, ← recomputeHash_getElem, h]
  · intro h
    refine Vector.ext fun j hj => ?_
    rw [recomputeHash_getElem, recomputeHash_getElem, h]

/-- The two policies have the same bytes outside 32 consecutive ones. -/
def AgreeOutside (start : ℕ) (p q : RiskPolicy) : Prop :=
  ∀ i (_ : i < 96), i < start ∨ start + 32 ≤ i → (chained p)[i] = (chained q)[i]

/-- Every column meets the window in one byte, which the column determines. -/
theorem chained_eq_of_columns {p q : RiskPolicy} {start : ℕ} (hout : AgreeOutside start p q)
    (hcolumns : ∀ j (hj : j < 32), columnOf p j hj = columnOf q j hj) :
    chained p = chained q := by
  refine Vector.ext fun i hi => ?_
  by_cases hwindow : i < start ∨ start + 32 ≤ i
  · exact hout i hi hwindow
  have hrow : ∃ j, j < 32 ∧ (i = j ∨ i = j + 32 ∨ i = j + 64) :=
    ⟨i % 32, Nat.mod_lt _ (by decide), by omega⟩
  obtain ⟨j, hj, hij⟩ := hrow
  have hcolumn := hcolumns j hj
  unfold columnOf at hcolumn
  rcases hij with rfl | rfl | rfl
  · rw [hout (i + 32) (by omega) (by omega), hout (i + 64) (by omega) (by omega)] at hcolumn
    exact (UInt8.xor_left_inj _).mp ((UInt8.xor_left_inj _).mp hcolumn)
  · rw [hout j (by omega) (by omega), hout (j + 64) (by omega) (by omega)] at hcolumn
    exact (UInt8.xor_right_inj _).mp ((UInt8.xor_left_inj _).mp hcolumn)
  · rw [hout j (by omega) (by omega), hout (j + 32) (by omega) (by omega)] at hcolumn
    exact (UInt8.xor_right_inj _).mp hcolumn

/-- Packed thresholds differ in their first eight bytes at most. -/
theorem agreeOutside_of_thresholds {p q : RiskPolicy} {t u : ℤ}
    (hp : p.ciphertextRef.toList = encryptThreshold t)
    (hq : q.ciphertextRef.toList = encryptThreshold u) (hhandle : p.arciumHandle = q.arciumHandle) :
    AgreeOutside 0 p q := by
  have hdrop : ∀ {r : RiskPolicy} {v : ℤ}, r.ciphertextRef.toList = encryptThreshold v →
      (chained r).toList.drop 8 = List.replicate 40 0 ++ (tag ++ r.arciumHandle.toList) := by
    intro r v hr
    rw [chained_toList, hr, encryptThreshold_eq, List.append_assoc, List.append_assoc]
    exact List.drop_left' (LittleEndian.toBytes_length _ _)
  intro i hi hafter
  have hsame : (chained p).toList.drop 8 = (chained q).toList.drop 8 := by
    rw [hdrop hp, hdrop hq, hhandle]
  have hbyte := congrArg (fun bytes => bytes[i - 8]?) hsame
  have hindex : 8 + (i - 8) = i := by omega
  simpa [List.getElem?_drop, hindex, hi] using hbyte

/-- The hash tells two policies apart exactly when a column does: so it detects
every change inside 32 consecutive bytes, and under one handle it tells all
thresholds of the u64 range apart. -/
theorem policy_hash_detects (p q : RiskPolicy) :
    (p.recomputeHash.policyHash = q.recomputeHash.policyHash ↔
      ∀ j (hj : j < 32), columnOf p j hj = columnOf q j hj) ∧
    (∀ start, AgreeOutside start p q → chained p ≠ chained q →
      p.recomputeHash.policyHash ≠ q.recomputeHash.policyHash) ∧
    ∀ t u : UInt64, p.ciphertextRef.toList = encryptThreshold t.toNat →
      q.ciphertextRef.toList = encryptThreshold u.toNat → p.arciumHandle = q.arciumHandle →
      t ≠ u → p.recomputeHash.policyHash ≠ q.recomputeHash.policyHash := by
  have hwindow : ∀ start, AgreeOutside start p q → chained p ≠ chained q →
      p.recomputeHash.policyHash ≠ q.recomputeHash.policyHash :=
    fun start hout hne h => hne (chained_eq_of_columns hout (policyHash_eq_iff.mp h))
  refine ⟨policyHash_eq_iff, hwindow, ?_⟩
  intro t u hp hq hhandle hne
  refine hwindow 0 (agreeOutside_of_thresholds hp hq hhandle) fun hchained => hne ?_
  have hpack : encryptThreshold t.toNat = encryptThreshold u.toNat := by
    rw [← hp, ← hq, ← chained_front, ← chained_front, hchained]
  have hmod := encryptThreshold_inj.mp hpack
  have ht := t.toNat_lt
  have hu := u.toNat_lt
  exact UInt64.toNat_inj.mp (by omega)

end RiskClaw.PolicyHash

/-
This file says that texts in the order of their characters are in the order of
their bytes. A character with a greater code has a greater first byte, or as many
bytes and the first difference in its favour, so the first bytes that differ decide
alike whatever follows them.
-/

import EstreeScopes.Text.Encoding
import Mathlib

namespace EstreeScopes.Text

theorem bytes_eq (text : String) : bytes text = text.toList.flatMap String.utf8EncodeChar := by
  have encoded : text.toByteArray = text.toList.utf8Encode := by
    rw [← String.toByteArray_ofList, String.ofList_toList]
  show text.toByteArray.data.toList = _
  rw [encoded, List.utf8Encode, List.data_toByteArray]

/-! ### Characters -/

theorem ofNat_cons_lt {first second : Nat} (before : first < second) (bound : second < 256)
    (rest other : List UInt8) : UInt8.ofNat first :: rest < UInt8.ofNat second :: other := by
  refine List.cons_lt_cons_iff.mpr (Or.inl ?_)
  rw [UInt8.lt_iff_toNat_lt, UInt8.toNat_ofNat_of_lt' (before.trans bound),
    UInt8.toNat_ofNat_of_lt' bound]
  exact before

/-- One more byte, which holds the last six bits of a number, keeps the order. -/
theorem append_digit_lt (lead otherLead : List UInt8) {first second : Nat}
    (ordered : first / 64 < second / 64 → ∀ rest other, lead ++ rest < otherLead ++ other)
    (same : first / 64 = second / 64 → lead = otherLead) (before : first < second)
    (rest other : List UInt8) :
    lead ++ [UInt8.ofNat (first % 64 + 128)] ++ rest <
      otherLead ++ [UInt8.ofNat (second % 64 + 128)] ++ other := by
  have digits : first / 64 < second / 64 ∨ first / 64 = second / 64 ∧ first % 64 < second % 64 := by
    omega
  rw [List.append_assoc, List.append_assoc]
  rcases digits with less | ⟨equal, less⟩
  · exact ordered less _ _
  · rw [same equal]
    exact List.append_left_lt (ofNat_cons_lt (by omega) (by omega) rest other)

/-- The bytes of two characters in order are in order, whatever follows them. -/
theorem utf8EncodeChar_append_lt {first second : Char} (before : first < second)
    (rest other : List UInt8) :
    String.utf8EncodeChar first ++ rest < String.utf8EncodeChar second ++ other := by
  have smaller : first.val.toNat < second.val.toNat := before
  have bound : second.val.toNat < 0x110000 := by
    rcases second.valid with low | high <;> omega
  have square (code : Nat) : code / 4096 = code / 64 / 64 := by
    rw [Nat.div_div_eq_div_mul]
  have cube (code : Nat) : code / 262144 = code / 64 / 64 / 64 := by
    rw [Nat.div_div_eq_div_mul, Nat.div_div_eq_div_mul]
  simp only [String.utf8EncodeChar, square, cube]
  generalize first.val.toNat = code at smaller
  generalize second.val.toNat = larger at smaller bound
  -- A character of more bytes has a greater first byte, so only equal numbers of bytes are left.
  split_ifs <;> try exact ofNat_cons_lt (by omega) (by omega) _ _
  · refine append_digit_lt [_] [_] (fun less => ?_) (fun equal => by rw [equal]) smaller rest other
    exact ofNat_cons_lt (by omega) (by omega)
  · refine append_digit_lt [_, _] [_, _] ?_ (fun equal => by rw [equal]) smaller rest other
    refine append_digit_lt [_] [_] (fun less => ?_) (fun equal => by rw [equal])
    exact ofNat_cons_lt (by omega) (by omega)
  · refine append_digit_lt [_, _, _] [_, _, _] ?_ (fun equal => by rw [equal]) smaller rest other
    refine append_digit_lt [_, _] [_, _] ?_ (fun equal => by rw [equal])
    refine append_digit_lt [_] [_] (fun less => ?_) (fun equal => by rw [equal])
    exact ofNat_cons_lt (by omega) (by omega)

/-! ### Texts -/

theorem flatMap_lt_of_lt {first second : List Char} (before : first < second) :
    first.flatMap String.utf8EncodeChar < second.flatMap String.utf8EncodeChar := by
  induction first generalizing second with
  | nil =>
    match second, before with
    | char :: rest, _ =>
      obtain ⟨byte, more, encoded⟩ :=
        List.exists_cons_of_ne_nil (String.utf8EncodeChar_ne_nil (c := char))
      rw [List.flatMap_nil, List.flatMap_cons, encoded]
      exact List.nil_lt_cons _ _
  | cons char rest inductionHypothesis =>
    match second, before with
    | other :: others, before =>
      rw [List.flatMap_cons, List.flatMap_cons]
      rcases List.cons_lt_cons_iff.mp before with less | ⟨rfl, less⟩
      · exact utf8EncodeChar_append_lt less _ _
      · exact List.append_left_lt (inductionHypothesis less)

/-- The order of texts is the order of their bytes. -/
theorem lt_iff_bytes_lt {first second : String} : first < second ↔ bytes first < bytes second := by
  have forward {first second : String} (before : first < second) : bytes first < bytes second := by
    rw [bytes_eq, bytes_eq]
    exact flatMap_lt_of_lt (String.lt_iff_toList_lt.mp before)
  refine ⟨forward, fun before => ?_⟩
  rcases lt_trichotomy first second with less | rfl | greater
  · exact less
  · exact absurd before (List.lt_irrefl _)
  · exact absurd before (List.lt_asymm (forward greater))

/-! ### Sorting -/

/-- What has distinct names has increasing names when it is sorted by them. -/
theorem pairwise_mergeSort {α Name : Type} [LE Name] [LT Name] [DecidableLE Name]
    [Std.IsLinearOrder Name] [Std.LawfulOrderLT Name] (name : α → Name) {items : List α}
    (distinct : (items.map name).Nodup) :
    (items.mergeSort fun first second => name first ≤ name second).Pairwise
      fun first second => name first < name second := by
  have sorted : (items.mergeSort fun first second => name first ≤ name second).Pairwise
      fun first second => name first ≤ name second := by
    refine (List.pairwise_mergeSort ?_ ?_ items).imp of_decide_eq_true
    · intro first second third before after
      exact decide_eq_true (Std.le_trans (of_decide_eq_true before) (of_decide_eq_true after))
    · intro first second
      simpa using Std.le_total (a := name first) (b := name second)
  have apart : (items.mergeSort fun first second => name first ≤ name second).Pairwise
      fun first second => name first ≠ name second :=
    List.pairwise_map.mp (((List.mergeSort_perm items _).map name).nodup_iff.mpr distinct)
  exact (sorted.and apart).imp fun ⟨before, different⟩ =>
    Std.lt_of_le_of_ne before different

end EstreeScopes.Text

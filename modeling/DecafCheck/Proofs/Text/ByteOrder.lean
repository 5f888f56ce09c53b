import Mathlib.Tactic.SplitIfs

namespace DecafCheck

/-- The bytes of a text in UTF-8. -/
def utf8 (s : String) : List UInt8 :=
  s.toUTF8.data.toList

theorem utf8_eq (s : String) : utf8 s = s.toList.flatMap String.utf8EncodeChar := by
  conv => lhs; rw [← String.ofList_toList (s := s)]
  rw [utf8, String.toUTF8_eq_toByteArray, String.toByteArray_ofList, List.utf8Encode,
    List.data_toByteArray]

theorem byte_cons_lt {m n : Nat} (hm : m < 256) (hn : n < 256) {xs ys : List UInt8} :
    UInt8.ofNat m :: xs < UInt8.ofNat n :: ys ↔ m < n ∨ m = n ∧ xs < ys := by
  have hbyte {k : Nat} (hk : k < 256) : (UInt8.ofNat k).toNat = k := by
    rw [UInt8.toNat_ofNat']
    exact Nat.mod_eq_of_lt hk
  rw [List.cons_lt_cons_iff, UInt8.lt_iff_toNat_lt, ← UInt8.toNat_inj, hbyte hm, hbyte hn]

/-- Of two characters the smaller one has the smaller bytes, whatever comes behind them. -/
theorem utf8EncodeChar_lt {c d : Char} (h : c < d) (xs ys : List UInt8) :
    String.utf8EncodeChar c ++ xs < String.utf8EncodeChar d ++ ys := by
  have hcd : c.val.toNat < d.val.toNat := h
  have hd : d.val.toNat < 1114112 := by
    have hvalid := d.valid
    simp only [UInt32.isValidChar, Nat.isValidChar] at hvalid
    omega
  -- Behind the first byte, each byte holds a digit to the base of 64.
  have hdigits (n : Nat) : n / 4096 = n / 64 / 64 ∧ n / 262144 = n / 64 / 64 / 64 := by omega
  simp only [String.utf8EncodeChar, (hdigits _).1, (hdigits _).2]
  generalize c.val.toNat = m at hcd ⊢
  generalize d.val.toNat = n at hcd hd ⊢
  split_ifs
  all_goals simp only [List.cons_append, List.nil_append]
  all_goals repeat rw [byte_cons_lt (by omega) (by omega)]
  all_goals omega

theorem utf8_lt_of_lt {s t : String} (h : s < t) : utf8 s < utf8 t := by
  have hlex : s.toList.Lex (fun c d => c < d) t.toList := List.lex_lt.mpr h
  rw [utf8_eq, utf8_eq]
  generalize s.toList = cs at hlex ⊢
  generalize t.toList = ds at hlex ⊢
  induction hlex with
  | nil =>
    rw [List.flatMap_nil, List.flatMap_cons]
    obtain ⟨b, bs, hb⟩ := List.exists_cons_of_ne_nil (String.utf8EncodeChar_ne_nil)
    rw [hb]
    exact List.nil_lt_cons _ _
  | rel hcd => exact utf8EncodeChar_lt hcd _ _
  | cons _ ih => exact List.append_left_lt ih

/-- Texts compare by their bytes as they do by their characters. -/
theorem utf8_lt_iff {s t : String} : utf8 s < utf8 t ↔ s < t := by
  refine ⟨fun h => String.not_le.mp fun hle => ?_, utf8_lt_of_lt⟩
  by_cases hst : s ≤ t
  · obtain rfl := String.le_antisymm hst hle
    exact List.lt_irrefl _ h
  · exact List.lt_asymm h (utf8_lt_of_lt (String.not_le.mp hst))

end DecafCheck

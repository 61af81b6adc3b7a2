import Crew.Json.Outline
import Crew.Json.Printer

/-!
# Strings are read as they are written

What stands between the quotes of a written string is read back as that string: each character is
read from what it was escaped to (`Outline.readString_escapeChar`), and the closing quote is the
first one that is not escaped.
-/

namespace Crew.Json

theorem hexValue?_hexDigit : ∀ n < 16, Outline.hexValue? (hexDigit n) = some n := by decide

namespace Outline

variable {fuel : Nat} {done rest : List Char}

theorem readUnit_hexDigit {a b : Nat} (ha : a < 16) (hb : b < 16) (rest : List Char) :
    readUnit ('0' :: '0' :: hexDigit a :: hexDigit b :: rest) = .ok (a * 16 + b, rest) := by
  have hzero : hexValue? '0' = some 0 := by decide
  unfold readUnit
  simp [hzero, hexValue?_hexDigit a ha, hexValue?_hexDigit b hb]

theorem readString_escaped {e c : Char} (hu : e ≠ 'u') (he : escaped? e = some c)
    (rest : List Char) : readString (fuel + 1) done true ('\\' :: e :: rest) =
      readString fuel (c :: done) true rest := by
  rw [readString, he]
  exact hu

theorem readString_hexDigit {a b : Nat} (ha : a < 2) (hb : b < 16) (rest : List Char) :
    readString (fuel + 1) done true
        ('\\' :: 'u' :: '0' :: '0' :: hexDigit a :: hexDigit b :: rest) =
      readString fuel (Char.ofNat (a * 16 + b) :: done) true rest := by
  have hunit : a * 16 + b < 32 := by omega
  simp only [readString, readUnit_hexDigit (Nat.lt_trans ha (by decide)) hb]
  rw [if_neg (by omega), if_neg (by omega)]

theorem readString_plain {c : Char} (hq : c ≠ '"') (hb : c ≠ '\\') (hc : 0x20 ≤ c.toNat)
    (rest : List Char) : readString (fuel + 1) done true (c :: rest) =
      readString fuel (c :: done) true rest := by
  rw [readString, if_neg (Nat.not_lt.mpr hc)] <;> simp [hq, hb]

theorem readString_escapeChar (c : Char) (rest : List Char) :
    readString (fuel + 1) done true (escapeChar c ++ rest) =
      readString fuel (c :: done) true rest := by
  unfold escapeChar
  by_cases hquote : c = '"'
  · subst hquote
    exact readString_escaped (by decide) rfl rest
  rw [if_neg hquote]
  by_cases hslash : c = '\\'
  · subst hslash
    exact readString_escaped (by decide) rfl rest
  rw [if_neg hslash]
  by_cases hback : c = '\x08'
  · subst hback
    exact readString_escaped (by decide) rfl rest
  rw [if_neg hback]
  by_cases hfeed : c = '\x0c'
  · subst hfeed
    exact readString_escaped (by decide) rfl rest
  rw [if_neg hfeed]
  by_cases hline : c = '\n'
  · subst hline
    exact readString_escaped (by decide) rfl rest
  rw [if_neg hline]
  by_cases hreturn : c = '\r'
  · subst hreturn
    exact readString_escaped (by decide) rfl rest
  rw [if_neg hreturn]
  by_cases htab : c = '\t'
  · subst htab
    exact readString_escaped (by decide) rfl rest
  rw [if_neg htab]
  by_cases hcontrol : c.toNat < 0x20
  · rw [if_pos hcontrol]
    have hhigh : c.toNat / 16 < 2 := by omega
    refine (readString_hexDigit hhigh (Nat.mod_lt _ (by decide)) rest).trans ?_
    rw [Nat.div_add_mod', Char.ofNat_toNat]
  · rw [if_neg hcontrol]
    exact readString_plain hquote hslash (Nat.le_of_not_lt hcontrol) rest

/-- What stands between the quotes of a string is read up to the closing one. -/
theorem readString_flatMap (cs : List Char) (rest : List Char) (h : cs.length < fuel) :
    readString fuel done true (cs.flatMap escapeChar ++ '"' :: rest) =
      .ok (some (String.ofList (done.reverse ++ cs)), rest) := by
  induction cs generalizing fuel done with
  | nil =>
    obtain ⟨fuel, rfl⟩ := Nat.exists_eq_add_one_of_ne_zero (Nat.ne_of_gt h)
    rw [List.append_nil]
    rfl
  | cons c cs ih =>
    obtain ⟨fuel, rfl⟩ := Nat.exists_eq_add_one_of_ne_zero (Nat.ne_of_gt (Nat.zero_lt_of_lt h))
    rw [List.flatMap_cons, List.append_assoc, readString_escapeChar,
      ih (Nat.lt_of_succ_lt_succ h), List.reverse_cons, List.append_assoc]
    rfl

end Outline

theorem length_le_flatMap_escapeChar (cs : List Char) :
    cs.length ≤ (cs.flatMap escapeChar).length := by
  induction cs with
  | nil => exact Nat.le_refl _
  | cons c cs ih =>
    have hc : 0 < (escapeChar c).length := by
      unfold escapeChar
      repeat' split
      all_goals exact Nat.succ_pos _
    rw [List.flatMap_cons, List.length_append, List.length_cons]
    omega

end Crew.Json

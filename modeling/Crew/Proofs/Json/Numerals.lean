import Mathlib.Data.List.TakeWhile
import Crew.Json.Decoder

/-!
# Numerals are read as they are written

A numeral is read up to the first character that cannot belong to one, so that what is read of a
numeral does not depend on what follows its end (`Outline.readNumeral_append`). The digits of a
natural number of 64 bits are read as that number (`Numeral.value?_wholeDigits`).
-/

namespace Crew.Json

theorem bind_eq_ok {ε α β : Type} {x : Except ε α} {f : α → Except ε β} {b : β} :
    (x >>= f) = .ok b ↔ ∃ a, x = .ok a ∧ f a = .ok b := by
  cases x with
  | error e => exact ⟨nofun, fun ⟨_, h, _⟩ => nomatch h⟩
  | ok a =>
    constructor
    · exact fun h => ⟨a, rfl, h⟩
    · rintro ⟨_, h, hf⟩
      cases h
      exact hf

namespace Outline

variable {cs tail rest : List Char} {negative : Bool} {numeral : Numeral} {digits : List Nat}

/-- No numeral goes on with this. -/
def EndsNumeral (tail : List Char) : Prop :=
  ∀ c ∈ tail.head?, c.isDigit = false ∧ c ≠ '.' ∧ c ≠ 'e' ∧ c ≠ 'E'

theorem endsNumeral_nil : EndsNumeral [] := fun _ hc => nomatch hc

theorem endsNumeral_cons {c : Char} (hd : c.isDigit = false) (hp : c ≠ '.') (he : c ≠ 'e')
    (hE : c ≠ 'E') (rest : List Char) : EndsNumeral (c :: rest) := by
  intro d hc
  obtain rfl := Option.some.inj hc
  exact ⟨hd, hp, he, hE⟩

-- ---------------------------------------------------------------------------
-- What follows a numeral
-- ---------------------------------------------------------------------------

theorem readDigits_append (h : EndsNumeral tail) (cs : List Char) :
    readDigits (cs ++ tail) = ((readDigits cs).1, (readDigits cs).2 ++ tail) := by
  have hspan : (cs ++ tail).takeWhile Char.isDigit = cs.takeWhile Char.isDigit ∧
      (cs ++ tail).dropWhile Char.isDigit = cs.dropWhile Char.isDigit ++ tail := by
    induction cs with
    | nil =>
      cases tail with
      | nil => exact ⟨rfl, rfl⟩
      | cons c rest => simp [(h c rfl).1]
    | cons c cs ih =>
      by_cases hc : c.isDigit <;> simp [hc, ih]
  rw [readDigits, hspan.1, hspan.2]
  rfl

theorem readSomeDigits_eq_ok :
    readSomeDigits cs = .ok (digits, rest) ↔ digits ≠ [] ∧ readDigits cs = (digits, rest) := by
  cases cs with
  | nil =>
    refine ⟨fun h => (nomatch h), ?_⟩
    rintro ⟨hne, he⟩
    exact absurd (congrArg Prod.fst he).symm hne
  | cons c cs =>
    unfold readSomeDigits
    cases hd : readDigits (c :: cs) with
    | mk digits' rest' =>
      cases digits' with
      | nil => simp +contextual [eq_comm]
      | cons d ds => simp +contextual [eq_comm]

theorem readSomeDigits_append (h : EndsNumeral tail)
    (hr : readSomeDigits cs = .ok (digits, rest)) :
    readSomeDigits (cs ++ tail) = .ok (digits, rest ++ tail) := by
  obtain ⟨hne, hd⟩ := readSomeDigits_eq_ok.mp hr
  refine readSomeDigits_eq_ok.mpr ⟨hne, ?_⟩
  rw [readDigits_append h, hd]

theorem readFraction_append {fraction : Option (List Nat)} (h : EndsNumeral tail)
    (hr : readFraction cs = .ok (fraction, rest)) :
    readFraction (cs ++ tail) = .ok (fraction, rest ++ tail) := by
  unfold readFraction at hr
  split at hr
  next cs =>
    cases hs : readSomeDigits cs with
    | error b =>
      rw [hs] at hr
      cases hr
    | ok result =>
      rw [hs] at hr
      cases hr
      rw [List.cons_append, readFraction, readSomeDigits_append h hs]
      rfl
  next hno =>
    cases hr
    unfold readFraction
    split
    next cs' he =>
      cases cs with
      | nil =>
        rw [List.nil_append] at he
        exact absurd rfl (h '.' (by rw [he]; rfl)).2.1
      | cons c cs =>
        rw [List.cons_append] at he
        cases he
        exact absurd rfl (hno cs)
    · rfl

def signedExponent (negative : Bool) (cs : List Char) : Except Break (Option Int × List Char) :=
  (readSomeDigits cs).map fun (digits, rest) =>
    (some (if negative then -(ofDigits digits : Int) else ofDigits digits), rest)

theorem readExponent_sign {e : Char} (he : e = 'e' ∨ e = 'E') (cs : List Char) :
    readExponent (e :: '+' :: cs) = signedExponent false cs ∧
      readExponent (e :: '-' :: cs) = signedExponent true cs := by
  rcases he with rfl | rfl <;> exact ⟨rfl, rfl⟩

theorem readExponent_plain {e c : Char} (he : e = 'e' ∨ e = 'E') (hp : c ≠ '+') (hm : c ≠ '-')
    (cs : List Char) : readExponent (e :: c :: cs) = signedExponent false (c :: cs) := by
  unfold readExponent
  dsimp only
  rw [if_pos he]
  split
  next heq => exact absurd (List.cons.inj heq).1 hp
  next heq => exact absurd (List.cons.inj heq).1 hm
  · rfl

theorem readExponent_other {c : Char} (hc : ¬ (c = 'e' ∨ c = 'E')) (cs : List Char) :
    readExponent (c :: cs) = .ok (none, c :: cs) :=
  if_neg hc

theorem signedExponent_append {exponent : Option Int} (h : EndsNumeral tail)
    (hr : signedExponent negative cs = .ok (exponent, rest)) :
    signedExponent negative (cs ++ tail) = .ok (exponent, rest ++ tail) := by
  unfold signedExponent at hr ⊢
  cases hd : readSomeDigits cs with
  | error b =>
    rw [hd] at hr
    cases hr
  | ok result =>
    rw [hd] at hr
    cases hr
    rw [readSomeDigits_append h hd]
    rfl

theorem readExponent_append {exponent : Option Int} (h : EndsNumeral tail)
    (hr : readExponent cs = .ok (exponent, rest)) :
    readExponent (cs ++ tail) = .ok (exponent, rest ++ tail) := by
  match cs with
  | [] =>
    cases hr
    cases tail with
    | nil => rfl
    | cons c more =>
      obtain ⟨-, -, he, hE⟩ := h c rfl
      exact readExponent_other (not_or.mpr ⟨he, hE⟩) more
  | [e] =>
    by_cases he : e = 'e' ∨ e = 'E'
    · rcases he with rfl | rfl <;> cases hr
    · rw [readExponent_other he] at hr
      cases hr
      exact readExponent_other he _
  | e :: c :: cs =>
    by_cases he : e = 'e' ∨ e = 'E'
    · by_cases hp : c = '+'
      · subst hp
        rw [(readExponent_sign he cs).1] at hr
        exact (readExponent_sign he _).1.trans (signedExponent_append h hr)
      · by_cases hm : c = '-'
        · subst hm
          rw [(readExponent_sign he cs).2] at hr
          exact (readExponent_sign he _).2.trans (signedExponent_append h hr)
        · rw [readExponent_plain he hp hm] at hr
          exact (readExponent_plain he hp hm _).trans (signedExponent_append h hr)
    · rw [readExponent_other he] at hr
      cases hr
      exact readExponent_other he _

theorem readNumeral_eq_ok : readNumeral negative cs = .ok (numeral, rest) ↔
    ∃ whole rest₁ fraction rest₂ exponent, readSomeDigits cs = .ok (whole, rest₁) ∧
      (∀ d ds, whole ≠ 0 :: d :: ds) ∧ readFraction rest₁ = .ok (fraction, rest₂) ∧
      readExponent rest₂ = .ok (exponent, rest) ∧
      numeral = { negative, whole, fraction, exponent } := by
  constructor
  · intro h
    obtain ⟨⟨whole, rest₁⟩, hs, h⟩ := bind_eq_ok.mp h
    dsimp only at h
    split at h
    · cases h
    next hzero =>
      obtain ⟨⟨fraction, rest₂⟩, hf, h⟩ := bind_eq_ok.mp h
      obtain ⟨⟨exponent, rest₃⟩, he, h⟩ := bind_eq_ok.mp h
      cases h
      exact ⟨whole, rest₁, fraction, rest₂, exponent, hs, hzero, hf, he, rfl⟩
  · rintro ⟨whole, rest₁, fraction, rest₂, exponent, hs, hzero, hf, he, rfl⟩
    unfold readNumeral
    simp only [hs, hf, he, bind, Except.bind]
    rfl

theorem readNumeral_append (h : EndsNumeral tail)
    (hr : readNumeral negative cs = .ok (numeral, rest)) :
    readNumeral negative (cs ++ tail) = .ok (numeral, rest ++ tail) := by
  obtain ⟨whole, rest₁, fraction, rest₂, exponent, hs, hzero, hf, he, hn⟩ :=
    readNumeral_eq_ok.mp hr
  exact readNumeral_eq_ok.mpr ⟨whole, _, fraction, _, exponent, readSomeDigits_append h hs, hzero,
    readFraction_append h hf, readExponent_append h he, hn⟩

-- ---------------------------------------------------------------------------
-- Whole numbers
-- ---------------------------------------------------------------------------

theorem digit?_digitChar {d : Nat} (h : d < 10) : digit? d.digitChar = some d := by
  rw [digit?, Nat.isDigit_digitChar, decide_eq_true h, if_pos rfl,
    Nat.toNat_digitChar_sub_48_of_lt_ten h]

def wholeDigits (n : Nat) : List Nat := (Nat.toDigits 10 n).filterMap digit?

theorem wholeDigits_of_lt {n : Nat} (h : n < 10) : wholeDigits n = [n] := by
  rw [wholeDigits, Nat.toDigits_of_lt_base h, List.filterMap_cons_some (digit?_digitChar h)]
  rfl

theorem wholeDigits_of_le {n : Nat} (h : 10 ≤ n) :
    wholeDigits n = wholeDigits (n / 10) ++ [n % 10] := by
  rw [wholeDigits, Nat.toDigits_of_base_le (by decide) h, List.filterMap_append,
    List.filterMap_cons_some (digit?_digitChar (Nat.mod_lt n (by decide)))]
  rfl

theorem wholeDigits_ne_nil (n : Nat) : wholeDigits n ≠ [] := by
  rcases Nat.lt_or_ge n 10 with h | h
  · rw [wholeDigits_of_lt h]
    exact List.cons_ne_nil _ _
  · rw [wholeDigits_of_le h]
    exact List.append_ne_nil_of_right_ne_nil _ (List.cons_ne_nil _ _)

theorem head_wholeDigits {n : Nat} (h : 0 < n) : ∀ d ds, wholeDigits n = d :: ds → d ≠ 0 := by
  induction n using Nat.strongRecOn with
  | _ n ih =>
    intro d ds he
    rcases Nat.lt_or_ge n 10 with hlt | hle
    · rw [wholeDigits_of_lt hlt] at he
      cases he
      omega
    · rw [wholeDigits_of_le hle] at he
      cases hq : wholeDigits (n / 10) with
      | nil => exact absurd hq (wholeDigits_ne_nil _)
      | cons e es =>
        rw [hq] at he
        cases he
        exact ih (n / 10) (by omega) (by omega) d es hq

theorem foldl_wholeDigits (n : Nat) :
    (wholeDigits n).foldl (fun n d => n * 10 + d) 0 = n := by
  induction n using Nat.strongRecOn with
  | _ n ih =>
    rcases Nat.lt_or_ge n 10 with hlt | hle
    · rw [wholeDigits_of_lt hlt]
      exact Nat.zero_add n
    · rw [wholeDigits_of_le hle, List.foldl_append, ih (n / 10) (by omega)]
      exact Nat.div_add_mod' n 10

theorem readNumeral_toDigits (negative : Bool) (n : Nat) :
    readNumeral negative (Nat.toDigits 10 n) = .ok ({ negative, whole := wholeDigits n }, []) := by
  have hdigits : ∀ c ∈ Nat.toDigits 10 n, c.isDigit := fun c hc =>
    Nat.isDigit_of_mem_toDigits (by decide) (by decide) hc
  refine readNumeral_eq_ok.mpr ⟨wholeDigits n, [], none, [], none, ?_, fun d ds he => ?_, rfl, rfl,
    rfl⟩
  · refine readSomeDigits_eq_ok.mpr ⟨wholeDigits_ne_nil n, ?_⟩
    rw [readDigits, List.takeWhile_eq_self_iff.mpr hdigits, List.dropWhile_eq_nil_iff.mpr hdigits]
    rfl
  · rcases Nat.eq_zero_or_pos n with rfl | hpos
    · cases he
    · exact head_wholeDigits hpos _ _ he rfl

end Outline

end Crew.Json

namespace Crew.Numeral

theorem accumulate_eq {digits : List Nat} {start : Nat}
    (h : digits.foldl (fun n d => n * 10 + d) start < wordLimit) :
    accumulate start digits = (digits.foldl (fun n d => n * 10 + d) start, 0) := by
  induction digits generalizing start with
  | nil => rfl
  | cons d ds ih =>
    have hle : start * 10 + d ≤ ds.foldl (fun n d => n * 10 + d) (start * 10 + d) := by
      clear ih h
      induction ds generalizing start d with
      | nil => exact Nat.le_refl _
      | cons e es ih =>
        rw [List.foldl_cons]
        exact Nat.le_trans (by omega) (ih e)
    rw [List.foldl_cons] at h ⊢
    rw [accumulate, if_pos (Nat.lt_of_le_of_lt hle h)]
    exact ih h

theorem value?_wholeDigits {negative : Bool} {n : Nat} (h : n < wordLimit)
    (hn : negative = true → 0 < n ∧ n ≤ Nat.pow 2 63) :
    value? { negative, whole := Json.Outline.wholeDigits n } =
      some (.int (if negative then -(n : Int) else n)) := by
  have hacc : accumulate 0 (Json.Outline.wholeDigits n) = (n, 0) := by
    have hfold := Json.Outline.foldl_wholeDigits n
    rw [accumulate_eq (hfold.symm ▸ h), hfold]
  unfold value?
  simp only [hacc, Option.isSome_none, Bool.false_eq_true, or_self, if_false, ne_eq,
    not_true_eq_false]
  cases negative with
  | false => rfl
  | true =>
    rw [if_pos rfl, if_pos (hn rfl)]
    rfl

end Crew.Numeral

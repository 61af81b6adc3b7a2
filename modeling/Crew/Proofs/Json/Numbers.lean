import Crew.Proofs.Json.Numerals

/-!
# Numbers within texts

A number lasts if it is read from its own text as itself. Then it is read so wherever its text
stands, as long as nothing follows that a numeral could go on with (`Number.Lasts.read_append`).
-/

namespace Crew

open Json

/-- The number is read from its text as itself. -/
def Number.Lasts (n : Number) : Prop := Decoder.decodeText .json n.render = .ok (.number n)

instance (n : Number) : Decidable n.Lasts :=
  inferInstanceAs (Decidable (Decoder.decodeText .json n.render = .ok (.number n)))

/-- An integer of 64 bits, signed or not, or a double that lasts. -/
def Number.Legible : Number → Prop
  | .int n => -(Nat.pow 2 63 : Int) ≤ n ∧ n < Numeral.wordLimit
  | .real x => Number.Lasts (.real x)

instance : (n : Number) → Decidable n.Legible
  | .int n => inferInstanceAs (Decidable (-(Nat.pow 2 63 : Int) ≤ n ∧ n < Numeral.wordLimit))
  | .real x => inferInstanceAs (Decidable (Number.Lasts (.real x)))

namespace Json.Outline

variable {cs tail rest : List Char} {negative : Bool} {fuel : Nat}

-- ---------------------------------------------------------------------------
-- Texts without blanks
-- ---------------------------------------------------------------------------

def Solid (cs : List Char) : Prop := ∀ c ∈ cs, isSpace c = false

instance (cs : List Char) : Decidable (Solid cs) := List.decidableBAll _ _

theorem solid_append : Solid (cs ++ tail) ↔ Solid cs ∧ Solid tail := List.forall_mem_append

theorem Solid.of_subset (h : Solid cs) (hs : rest ⊆ cs) : Solid rest := fun c hc => h c (hs hc)

theorem Solid.skipSpaces (h : Solid cs) : skipSpaces cs = cs := by
  cases cs with
  | nil => rfl
  | cons c cs => exact List.dropWhile_cons_of_neg (by simp [h c List.mem_cons_self])

theorem not_isSpace_of_isDigit {c : Char} (h : c.isDigit) : isSpace c = false := by
  rw [Bool.eq_false_iff]
  intro hs
  simp only [isSpace, Bool.or_eq_true, decide_eq_true_eq] at hs
  rcases hs with ((rfl | rfl) | rfl) | rfl <;> exact absurd h (by decide)

theorem solid_toDigits (n : Nat) : Solid (Nat.toDigits 10 n) := fun _ hc =>
  not_isSpace_of_isDigit (Nat.isDigit_of_mem_toDigits (by decide) (by decide) hc)

theorem solid_zeros (n : Nat) : Solid (NumberLayout.zeros n).toList := by
  intro c hc
  rw [NumberLayout.zeros, String.toList_ofList] at hc
  rw [List.eq_of_mem_replicate hc]
  rfl

theorem solid_renderDecimal (layout : NumberLayout) (d : Decimal) :
    Solid (layout.renderDecimal d).toList := by
  have hdigits := solid_toDigits d.digits
  have htake (n : Nat) : Solid ((Nat.toDigits 10 d.digits).take n) :=
    hdigits.of_subset (List.take_subset _ _)
  have hdrop (n : Nat) : Solid ((Nat.toDigits 10 d.digits).drop n) :=
    hdigits.of_subset (List.drop_subset _ _)
  have hpositional :
      Solid (layout.renderPositional (Nat.toDigits 10 d.digits) d.exponent).toList := by
    have htail : Solid (if layout.pointZero then ".0" else "").toList := by split <;> decide
    unfold NumberLayout.renderPositional
    dsimp only
    by_cases hwhole : 0 ≤ d.exponent
    · rw [if_pos hwhole, String.toList_append, String.toList_append, String.toList_ofList,
        solid_append, solid_append]
      exact ⟨⟨hdigits, solid_zeros _⟩, htail⟩
    · rw [if_neg hwhole]
      split
      · simp only [String.toList_append, String.toList_ofList, solid_append]
        exact ⟨⟨htake _, by decide⟩, hdrop _⟩
      · simp only [String.toList_append, String.toList_ofList, solid_append]
        exact ⟨⟨by decide, solid_zeros _⟩, hdigits⟩
  have hscientific (lead : Int) :
      Solid (NumberLayout.renderScientific (Nat.toDigits 10 d.digits) lead).toList := by
    unfold NumberLayout.renderScientific
    dsimp only
    simp only [String.toList_append, String.toList_ofList, solid_append, Nat.toString_eq_repr,
      Nat.toList_repr]
    refine ⟨⟨⟨⟨htake 1, ?_⟩, by decide⟩, ?_⟩, solid_toDigits _⟩
    · split
      · decide
      · simp only [String.toList_append, String.toList_ofList, solid_append]
        exact ⟨by decide, hdrop 1⟩
    · split <;> decide
  unfold NumberLayout.renderDecimal
  dsimp only
  split
  · split
    · exact hpositional
    · exact hscientific _
  · exact hpositional

theorem toList_render_ofNat (n : Nat) : (Number.int (.ofNat n)).render.toList = Nat.toDigits 10 n :=
  Nat.toList_repr

theorem toList_render_negSucc (n : Nat) :
    (Number.int (.negSucc n)).render.toList = '-' :: Nat.toDigits 10 (n + 1) := by
  have htext : (Number.int (.negSucc n)).render = "-" ++ Nat.repr (n + 1) := rfl
  rw [htext, String.toList_append, Nat.toList_repr]
  rfl

theorem solid_render (n : Number) : Solid n.render.toList := by
  cases n with
  | int n =>
    cases n with
    | ofNat n =>
      rw [toList_render_ofNat]
      exact solid_toDigits n
    | negSucc n =>
      rw [toList_render_negSucc]
      exact List.forall_mem_cons.mpr ⟨rfl, solid_toDigits _⟩
  | real x =>
    unfold Number.render
    dsimp only
    split
    · unfold NumberLayout.render
      split
      · decide
      · dsimp only
        rw [String.toList_append, solid_append]
        refine ⟨?_, ?_⟩
        · split <;> decide
        · split
          · decide
          · exact solid_renderDecimal _ _
    · decide

-- ---------------------------------------------------------------------------
-- A numeral ends before what cannot belong to it
-- ---------------------------------------------------------------------------

theorem readSomeDigits_subset {digits : List Nat} (h : readSomeDigits cs = .ok (digits, rest)) :
    rest ⊆ cs := by
  obtain ⟨-, hd⟩ := readSomeDigits_eq_ok.mp h
  have hrest : cs.dropWhile Char.isDigit = rest := congrArg Prod.snd hd
  exact hrest ▸ (List.dropWhile_suffix _).subset

theorem readFraction_subset {fraction : Option (List Nat)}
    (h : readFraction cs = .ok (fraction, rest)) : rest ⊆ cs := by
  unfold readFraction at h
  split at h
  next cs =>
    cases hs : readSomeDigits cs with
    | error b =>
      rw [hs] at h
      cases h
    | ok result =>
      rw [hs] at h
      cases h
      exact List.Subset.trans (readSomeDigits_subset hs) (List.subset_cons_self _ _)
  · cases h
    exact List.Subset.refl _

theorem signedExponent_subset {exponent : Option Int}
    (h : signedExponent negative cs = .ok (exponent, rest)) : rest ⊆ cs := by
  unfold signedExponent at h
  cases hs : readSomeDigits cs with
  | error b =>
    rw [hs] at h
    cases h
  | ok result =>
    rw [hs] at h
    cases h
    exact readSomeDigits_subset hs

theorem readExponent_subset {exponent : Option Int}
    (h : readExponent cs = .ok (exponent, rest)) : rest ⊆ cs := by
  match cs with
  | [] =>
    cases h
    exact List.Subset.refl _
  | [e] =>
    by_cases he : e = 'e' ∨ e = 'E'
    · rcases he with rfl | rfl <;> cases h
    · rw [readExponent_other he] at h
      cases h
      exact List.Subset.refl _
  | e :: c :: cs =>
    by_cases he : e = 'e' ∨ e = 'E'
    · by_cases hp : c = '+'
      · subst hp
        rw [(readExponent_sign he cs).1] at h
        exact List.Subset.trans (signedExponent_subset h) fun x hx => by simp [hx]
      · by_cases hm : c = '-'
        · subst hm
          rw [(readExponent_sign he cs).2] at h
          exact List.Subset.trans (signedExponent_subset h) fun x hx => by simp [hx]
        · rw [readExponent_plain he hp hm] at h
          exact List.Subset.trans (signedExponent_subset h) (List.subset_cons_self _ _)
    · rw [readExponent_other he] at h
      cases h
      exact List.Subset.refl _

theorem readNumeral_subset {numeral : Numeral}
    (h : readNumeral negative cs = .ok (numeral, rest)) : rest ⊆ cs := by
  obtain ⟨whole, rest₁, fraction, rest₂, exponent, hs, -, hf, he, -⟩ := readNumeral_eq_ok.mp h
  exact List.Subset.trans (readExponent_subset he)
    (List.Subset.trans (readFraction_subset hf) (readSomeDigits_subset hs))

theorem ofNumeral_eq_number {value : Option Number} {after : Option (List Char)} :
    ofNumeral negative cs = (.number value, after) ↔
      ∃ numeral rest, readNumeral negative cs = .ok (numeral, rest) ∧ numeral.value? = value ∧
        after = some rest := by
  unfold ofNumeral
  cases hr : readNumeral negative cs with
  | error b => simp
  | ok result =>
    obtain ⟨numeral, rest⟩ := result
    constructor
    · intro h
      cases h
      exact ⟨numeral, rest, rfl, rfl, rfl⟩
    · rintro ⟨numeral', rest', he, rfl, rfl⟩
      cases he
      rfl

theorem ofNumeral_append {value : Option Number} (ht : EndsNumeral tail)
    (h : ofNumeral negative cs = (.number value, some rest)) :
    ofNumeral negative (cs ++ tail) = (.number value, some (rest ++ tail)) := by
  obtain ⟨numeral, rest', hr, hv, he⟩ := ofNumeral_eq_number.mp h
  obtain rfl := Option.some.inj he
  exact ofNumeral_eq_number.mpr ⟨numeral, _, readNumeral_append ht hr, hv, rfl⟩

-- ---------------------------------------------------------------------------
-- Numbers that last
-- ---------------------------------------------------------------------------

theorem read_minus (fuel : Nat) (cs : List Char) :
    read (fuel + 1) ('-' :: cs) = ofNumeral true cs := by
  simp [read, skipSpaces, isSpace]

theorem read_digit {c : Char} (h : c.isDigit) (fuel : Nat) (cs : List Char) :
    read (fuel + 1) (c :: cs) = ofNumeral false (c :: cs) := by
  have hne (d : Char) (hd : d.isDigit = false) : c ≠ d := fun he => by simp [he, hd] at h
  have hskip : skipSpaces (c :: cs) = c :: cs :=
    List.dropWhile_cons_of_neg (by simp [not_isSpace_of_isDigit h])
  unfold read
  simp only [hskip]
  rw [if_neg (hne 'n' rfl), if_neg (hne 't' rfl), if_neg (hne 'f' rfl), if_neg (hne '"' rfl),
    if_neg (hne '[' rfl), if_neg (hne '\x7b' rfl), if_neg (hne '-' rfl), if_pos h]

theorem read_eq_number {value : Option Number} {after : Option (List Char)}
    (h : read fuel cs = (.number value, after)) (hs : Solid cs) :
    ∃ c rest, cs = c :: rest ∧ (c = '-' ∧ ofNumeral true rest = (.number value, after) ∨
      c.isDigit ∧ ofNumeral false (c :: rest) = (.number value, after)) := by
  cases fuel with
  | zero => cases h
  | succ fuel =>
    unfold read at h
    rw [hs.skipSpaces] at h
    cases cs with
    | nil => cases h
    | cons c rest =>
      refine ⟨c, rest, rfl, ?_⟩
      dsimp only at h
      have hword (word : List Char) (value' : Outline)
          (h : ofWord word value' rest = (.number value, after)) : value' = .number value := by
        unfold ofWord at h
        split at h
        · exact congrArg Prod.fst h
        · cases h
      split at h
      · cases hword _ _ h
      split at h
      · cases hword _ _ h
      split at h
      · cases hword _ _ h
      split at h
      · split at h <;> cases h
      split at h
      · split at h
        · cases h
        · split at h <;> cases h
      split at h
      · split at h
        · cases h
        · split at h <;> cases h
      split at h
      next hc => exact .inl ⟨hc, h⟩
      split at h
      next hc => exact .inr ⟨hc, h⟩
      · cases h

end Json.Outline

namespace Json.Decoder

theorem decodeText_eq_ok {α : Type} {d : Decoder α} {s : String} {a : α} :
    decodeText d s = .ok a ↔
      ∃ outline, Outline.ofText s = (outline, false) ∧ d {} outline = .ok a := by
  unfold decodeText
  generalize Outline.ofText s = result
  obtain ⟨outline, trailing⟩ := result
  constructor
  · intro h
    obtain ⟨b, hb, h⟩ := bind_eq_ok.mp h
    cases trailing with
    | true => cases h
    | false =>
      cases h
      exact ⟨outline, rfl, hb⟩
  · rintro ⟨outline', ho, hd⟩
    cases ho
    exact bind_eq_ok.mpr ⟨a, hd, rfl⟩

end Json.Decoder

namespace Json.Outline

theorem toJson_eq_number {ctx : Context} {outline : Outline} {n : Number}
    (h : outline.toJson ctx = .ok (.number n)) : outline = .number (some n) := by
  cases outline with
  | number value =>
    cases value with
    | none => cases h
    | some m =>
      cases h
      rfl
  | string value => cases value <;> cases h
  | array items stop =>
    obtain ⟨_, _, h⟩ := bind_eq_ok.mp h
    obtain ⟨_, _, h⟩ := bind_eq_ok.mp h
    obtain ⟨_, _, h⟩ := bind_eq_ok.mp h
    cases h
  | object members stop =>
    obtain ⟨_, _, h⟩ := bind_eq_ok.mp h
    obtain ⟨_, _, h⟩ := bind_eq_ok.mp h
    obtain ⟨_, _, h⟩ := bind_eq_ok.mp h
    cases h
  | _ => cases h

theorem ofText_number {s : String} {value : Option Number} (hs : Solid s.toList)
    (h : ofText s = (.number value, false)) :
    ∃ c rest, s.toList = c :: rest ∧
      (c = '-' ∧ ofNumeral true rest = (.number value, some []) ∨
        c.isDigit ∧ ofNumeral false (c :: rest) = (.number value, some [])) := by
  unfold ofText at h
  dsimp only at h
  cases hr : read (2 * s.toList.length + 2) s.toList with
  | mk outline after =>
    cases after with
    | none =>
      rw [hr] at h
      obtain rfl : outline = .number value := congrArg Prod.fst h
      obtain ⟨c, rest, -, ⟨-, hn⟩ | ⟨-, hn⟩⟩ := read_eq_number hr hs <;>
      · obtain ⟨_, _, _, _, he⟩ := ofNumeral_eq_number.mp hn
        cases he
    | some after =>
      rw [hr] at h
      obtain ⟨rfl, hblank⟩ : outline = .number value ∧ skipSpaces after = [] :=
        ⟨congrArg Prod.fst h, by simpa using congrArg Prod.snd h⟩
      obtain ⟨c, rest, hcs, hread⟩ := read_eq_number hr hs
      have hnil : ∀ {negative digits}, digits ⊆ s.toList →
          ofNumeral negative digits = (.number value, some after) → after = [] := by
        intro negative digits hsub hn
        obtain ⟨numeral, rest', hnum, -, he⟩ := ofNumeral_eq_number.mp hn
        obtain rfl := Option.some.inj he
        rw [← ((hs.of_subset hsub).of_subset (readNumeral_subset hnum)).skipSpaces, hblank]
      refine ⟨c, rest, hcs, hread.imp (fun ⟨hc, hn⟩ => ⟨hc, ?_⟩) fun ⟨hc, hn⟩ => ⟨hc, ?_⟩⟩
      · obtain rfl := hnil (hcs ▸ List.subset_cons_self _ _) hn
        exact hn
      · obtain rfl := hnil (hcs ▸ List.Subset.refl _) hn
        exact hn

end Json.Outline

namespace Number

open Json.Outline

/-- A number that lasts is read as itself in every text, and its text begins with a sign or a
digit. -/
theorem Lasts.read_append {n : Number} (h : n.Lasts) {tail : List Char} (ht : EndsNumeral tail)
    (fuel : Nat) : Outline.read (fuel + 1) (n.render.toList ++ tail) =
      (.number (some n), some tail) := by
  obtain ⟨outline, htext, hvalue⟩ := Decoder.decodeText_eq_ok.mp h
  obtain rfl := toJson_eq_number hvalue
  obtain ⟨c, rest, hcs, ⟨rfl, hn⟩ | ⟨hc, hn⟩⟩ := ofText_number (solid_render n) htext
  · rw [hcs, List.cons_append, read_minus]
    exact ofNumeral_append ht hn
  · rw [hcs, List.cons_append, read_digit hc]
    exact ofNumeral_append ht hn

theorem Lasts.head_render {n : Number} (h : n.Lasts) :
    ∃ c rest, n.render.toList = c :: rest ∧ (c = '-' ∨ c.isDigit) := by
  obtain ⟨outline, htext, hvalue⟩ := Decoder.decodeText_eq_ok.mp h
  obtain rfl := toJson_eq_number hvalue
  obtain ⟨c, rest, hcs, hc⟩ := ofText_number (solid_render n) htext
  exact ⟨c, rest, hcs, hc.imp And.left And.left⟩

theorem lasts_of_ofNumeral {n : Number} {c : Char} {rest : List Char}
    (hcs : n.render.toList = c :: rest)
    (h : c = '-' ∧ ofNumeral true rest = (.number (some n), some []) ∨
      c.isDigit ∧ ofNumeral false (c :: rest) = (.number (some n), some [])) : n.Lasts := by
  refine Decoder.decodeText_eq_ok.mpr ⟨.number (some n), ?_, rfl⟩
  unfold ofText
  dsimp only
  have hread : Outline.read (2 * n.render.toList.length + 2) n.render.toList =
      (.number (some n), some []) := by
    rw [hcs]
    rcases h with ⟨rfl, hn⟩ | ⟨hc, hn⟩
    · rw [read_minus, hn]
    · rw [read_digit hc, hn]
  rw [hread]
  rfl

theorem lasts_int {n : Int} (hlow : -(Nat.pow 2 63 : Int) ≤ n) (hhigh : n < Numeral.wordLimit) :
    (Number.int n).Lasts := by
  have hnumeral (negative : Bool) (m : Nat) (hm : m < Numeral.wordLimit)
      (hn : negative = true → 0 < m ∧ m ≤ Nat.pow 2 63) :
      ofNumeral negative (Nat.toDigits 10 m) =
        (.number (some (.int (if negative then -(m : Int) else m))), some []) :=
    ofNumeral_eq_number.mpr
      ⟨_, [], readNumeral_toDigits negative m, Numeral.value?_wholeDigits hm hn, rfl⟩
  cases n with
  | ofNat m =>
    cases hd : Nat.toDigits 10 m with
    | nil => exact absurd hd Nat.toDigits_ne_nil
    | cons c rest =>
      have hc : c.isDigit :=
        Nat.isDigit_of_mem_toDigits (by decide) (by decide) (hd ▸ List.mem_cons_self)
      refine lasts_of_ofNumeral ((toList_render_ofNat m).trans hd) (.inr ⟨hc, ?_⟩)
      rw [← hd]
      exact hnumeral false m (by simpa using hhigh) nofun
  | negSucc m =>
    have hm : m + 1 ≤ Nat.pow 2 63 := by omega
    refine lasts_of_ofNumeral (toList_render_negSucc m) (.inl ⟨rfl, ?_⟩)
    exact hnumeral true (m + 1) (Nat.lt_of_le_of_lt hm (by decide)) fun _ => ⟨Nat.succ_pos m, hm⟩

theorem Legible.lasts {n : Number} (h : n.Legible) : n.Lasts :=
  match n with
  | .int _ => lasts_int h.1 h.2
  | .real _ => h

theorem legible_nat {n : Nat} (h : n < Nat.pow 2 64) : (Number.int n).Legible :=
  ⟨Int.le_trans (Int.neg_nonpos_of_nonneg (Int.natCast_nonneg _)) (Int.natCast_nonneg n),
    Int.ofNat_lt.mpr h⟩

/-- Infinities and what is no number are written as a word, and no number is read of that. -/
theorem Lasts.isFinite {x : Float} (h : (Number.real x).Lasts) : x.isFinite = true := by
  by_contra hx
  have hnull : (Number.real x).render.toList = ['n', 'u', 'l', 'l'] :=
    congrArg String.toList (if_neg hx)
  obtain ⟨c, rest, hcs, hc⟩ := h.head_render
  obtain ⟨rfl, -⟩ := List.cons.inj (hnull.symm.trans hcs)
  exact absurd hc (by decide)

end Number

end Crew

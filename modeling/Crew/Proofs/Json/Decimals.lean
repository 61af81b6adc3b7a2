import Crew.Proofs.Decimal.Bits
import Crew.Proofs.Json.Numbers

/-!
# The texts of numbers are their own

The text of a finite number is a numeral that denotes this number (`Number.readSigned_render`) and
no other (`Numeral.Denotes.unique`), so that distinct numbers have distinct texts, whatever follows
them (`Number.render_append_inj`). A numeral denotes a double if its amount is that of the double's
shortest decimal. Reading the numeral as a double can miss, since that rounds twice; the amount is
exact.
-/

namespace Crew

open Json Outline

namespace Json.Outline

theorem foldl_digits (digits : List Nat) (start : Nat) :
    digits.foldl (fun n d => n * 10 + d) start = start * 10 ^ digits.length + ofDigits digits := by
  induction digits generalizing start with
  | nil => simp [ofDigits]
  | cons d ds ih =>
    rw [ofDigits, List.foldl_cons, List.foldl_cons, ih, ih (0 * 10 + d), List.length_cons,
      Nat.pow_succ]
    ring

theorem ofDigits_append (front back : List Nat) :
    ofDigits (front ++ back) = ofDigits front * 10 ^ back.length + ofDigits back := by
  rw [ofDigits, List.foldl_append, foldl_digits]
  rfl

theorem ofDigits_zeros (n : Nat) : ofDigits (List.replicate n 0) = 0 := by
  induction n with
  | zero => rfl
  | succ n ih =>
    rw [List.replicate_succ, ← List.singleton_append, ofDigits_append, ih]
    simp [ofDigits]

theorem ofDigits_wholeDigits (n : Nat) : ofDigits (wholeDigits n) = n := foldl_wholeDigits n

-- ---------------------------------------------------------------------------
-- Blocks of digits
-- ---------------------------------------------------------------------------

def digitsOf (cs : List Char) : List Nat := cs.filterMap digit?

def AllDigits (cs : List Char) : Prop := ∀ c ∈ cs, c.isDigit = true

instance (cs : List Char) : Decidable (AllDigits cs) := List.decidableBAll _ _

variable {cs ws fs rest : List Char} {negative : Bool}

theorem length_digitsOf (h : AllDigits cs) : (digitsOf cs).length = cs.length := by
  induction cs with
  | nil => rfl
  | cons c cs ih =>
    have hc : digit? c = some (c.toNat - 48) := if_pos (h c List.mem_cons_self)
    rw [digitsOf, List.filterMap_cons_some hc, List.length_cons, List.length_cons]
    exact congrArg (· + 1) (ih fun d hd => h d (List.mem_cons_of_mem c hd))

theorem digitsOf_append (cs rest : List Char) :
    digitsOf (cs ++ rest) = digitsOf cs ++ digitsOf rest :=
  List.filterMap_append

theorem allDigits_toDigits (n : Nat) : AllDigits (Nat.toDigits 10 n) := fun _ hc =>
  Nat.isDigit_of_mem_toDigits (by decide) (by decide) hc

theorem allDigits_zeros (n : Nat) : AllDigits (List.replicate n '0') := fun c hc => by
  rw [List.eq_of_mem_replicate hc]
  rfl

theorem digitsOf_zeros (n : Nat) : digitsOf (List.replicate n '0') = List.replicate n 0 := by
  rw [digitsOf, List.filterMap_replicate]
  rfl

theorem readSomeDigits_block (hne : cs ≠ []) (h : AllDigits cs)
    (hr : ∀ c ∈ rest.head?, c.isDigit = false) :
    readSomeDigits (cs ++ rest) = .ok (digitsOf cs, rest) := by
  refine readSomeDigits_eq_ok.mpr ⟨?_, ?_⟩
  · rw [← List.length_pos_iff, length_digitsOf h]
    exact List.length_pos_iff.mpr hne
  · have htake : rest.takeWhile Char.isDigit = [] ∧ rest.dropWhile Char.isDigit = rest := by
      cases rest with
      | nil => exact ⟨rfl, rfl⟩
      | cons c rest =>
        have hc := hr c rfl
        exact ⟨List.takeWhile_cons_of_neg (by simp [hc]), List.dropWhile_cons_of_neg (by simp [hc])⟩
    rw [readDigits, List.takeWhile_append_of_pos h, List.dropWhile_append_of_pos h, htake.1,
      htake.2, List.append_nil]
    rfl

theorem readSomeDigits_all (hne : cs ≠ []) (h : AllDigits cs) :
    readSomeDigits cs = .ok (digitsOf cs, []) := by
  have hread : readSomeDigits (cs ++ []) = _ := readSomeDigits_block hne h nofun
  rwa [List.append_nil] at hread

theorem signedExponent_toDigits (minus : Bool) (n : Nat) :
    signedExponent minus (Nat.toDigits 10 n) =
      .ok (some (if minus then -(n : Int) else n), []) := by
  rw [signedExponent, readSomeDigits_all Nat.toDigits_ne_nil (allDigits_toDigits n)]
  exact congrArg (fun m : Nat => Except.ok (some (if minus then -(m : Int) else m), []))
    (ofDigits_wholeDigits n)

theorem no_leading_zero {n : Nat} (hn : 0 < n) {front back after : List Nat}
    (h : front ++ back = wholeDigits n ++ after) (d : Nat) (ds : List Nat) :
    front ≠ 0 :: d :: ds := by
  rintro rfl
  cases hw : wholeDigits n with
  | nil => exact wholeDigits_ne_nil n hw
  | cons e es =>
    rw [hw] at h
    exact head_wholeDigits hn e es hw (List.cons.inj h).1.symm

end Json.Outline

-- ---------------------------------------------------------------------------
-- The amount of a numeral
-- ---------------------------------------------------------------------------

namespace Numeral

def decimals (n : Numeral) : List Nat := n.fraction.getD []

/-- What a numeral stands for, apart from its sign. -/
def amount (n : Numeral) : ℚ :=
  ofDigits (n.whole ++ n.decimals) * 10 ^ (n.exponent.getD 0 - (n.decimals.length : Int))

/-- The numeral is written as that of a double. -/
def IsReal (n : Numeral) : Prop := n.fraction.isSome ∨ n.exponent.isSome

end Numeral

/-- A text that is read as a double's numeral of this amount. -/
def Spells (negative : Bool) (cs : List Char) (q : ℚ) : Prop :=
  ∃ n : Numeral, readNumeral negative cs = .ok (n, []) ∧ n.negative = negative ∧ n.IsReal ∧
    n.amount = q

variable {negative : Bool} {ws fs : List Char}

theorem spells_point (hw : ws ≠ []) (hws : AllDigits ws) (hf : fs ≠ []) (hfs : AllDigits fs)
    (hzero : ∀ d ds, digitsOf ws ≠ 0 :: d :: ds) :
    Spells negative (ws ++ '.' :: fs)
      (ofDigits (digitsOf (ws ++ fs)) * 10 ^ (-(fs.length : Int))) := by
  have hfraction : readFraction ('.' :: fs) = .ok (some (digitsOf fs), []) := by
    rw [readFraction, readSomeDigits_all hf hfs]
    rfl
  refine ⟨_, readNumeral_eq_ok.mpr ⟨digitsOf ws, '.' :: fs, some (digitsOf fs), [], none,
    readSomeDigits_block hw hws ?_, hzero, hfraction, rfl, rfl⟩, rfl, .inl rfl, ?_⟩
  · rintro c ⟨⟩
    rfl
  · rw [Numeral.amount, digitsOf_append]
    simp only [Numeral.decimals, Option.getD_some, Option.getD_none, length_digitsOf hfs, zero_sub]

theorem readFraction_point (hfs : AllDigits fs) {e : Char} (he : e.isDigit = false) (hp : e ≠ '.')
    (rest : List Char) : ∃ fraction,
      readFraction ((if fs.isEmpty then [] else '.' :: fs) ++ e :: rest) =
        .ok (fraction, e :: rest) ∧ fraction.getD [] = digitsOf fs := by
  by_cases hnil : fs = []
  · subst hnil
    refine ⟨none, ?_, rfl⟩
    change readFraction (e :: rest) = _
    unfold readFraction
    split
    next heq => exact absurd (List.cons.inj heq).1 hp
    · rfl
  · refine ⟨some (digitsOf fs), ?_, rfl⟩
    have hends : ∀ c ∈ (e :: rest).head?, c.isDigit = false := by
      rintro c ⟨⟩
      exact he
    rw [if_neg (by simpa using hnil), List.cons_append, readFraction,
      readSomeDigits_block hnil hfs hends]
    rfl

theorem spells_exponent {c : Char} (hc : c.isDigit = true) (hfs : AllDigits fs) (minus : Bool)
    (n : Nat) :
    Spells negative
      (c :: ((if fs.isEmpty then [] else '.' :: fs) ++
        'e' :: (if minus then '-' else '+') :: Nat.toDigits 10 n))
      (ofDigits (digitsOf (c :: fs)) *
        10 ^ ((if minus then -(n : Int) else n) - (fs.length : Int))) := by
  have hexponent : readExponent ('e' :: (if minus then '-' else '+') :: Nat.toDigits 10 n) =
      .ok (some (if minus then -(n : Int) else n), []) := by
    cases minus with
    | false => exact (readExponent_sign (.inl rfl) _).1.trans (signedExponent_toDigits false n)
    | true => exact (readExponent_sign (.inl rfl) _).2.trans (signedExponent_toDigits true n)
  obtain ⟨fraction, hfraction, hdecimals⟩ := readFraction_point hfs (e := 'e') rfl (by decide)
    ((if minus then '-' else '+') :: Nat.toDigits 10 n)
  have hone : digitsOf [c] = [c.toNat - 48] := List.filterMap_cons_some (if_pos hc)
  have hcons : digitsOf (c :: fs) = digitsOf [c] ++ digitsOf fs := digitsOf_append [c] fs
  refine ⟨_, readNumeral_eq_ok.mpr ⟨digitsOf [c], _, fraction, _, _,
    readSomeDigits_block (List.cons_ne_nil c []) (by simpa [AllDigits] using hc) ?_,
    by simp [hone], hfraction, hexponent, rfl⟩, rfl, .inr rfl, ?_⟩
  · intro d hd
    split at hd <;>
    · obtain rfl := Option.some.inj hd
      rfl
  · simp only [Numeral.amount, Numeral.decimals, hdecimals, hcons, length_digitsOf hfs,
      Option.getD_some]

-- ---------------------------------------------------------------------------
-- Decimals
-- ---------------------------------------------------------------------------

section

variable {d : Decimal}

theorem spells_whole (hd : d.IsPlain) {e : Nat} (he : d.exponent = e) :
    Spells negative ((Nat.toDigits 10 d.digits ++ List.replicate e '0') ++ '.' :: ['0'])
      d.value := by
  have hwhole : digitsOf (Nat.toDigits 10 d.digits ++ List.replicate e '0') =
      wholeDigits d.digits ++ List.replicate e 0 := by
    rw [digitsOf_append, digitsOf_zeros]
    rfl
  have hlast : digitsOf ['0'] = [0] := rfl
  have hvalue : d.value = ofDigits (digitsOf ((Nat.toDigits 10 d.digits ++ List.replicate e '0') ++
      ['0'])) * 10 ^ (-((['0'] : List Char).length : Int)) := by
    rw [digitsOf_append, hwhole, hlast, ofDigits_append, ofDigits_append, ofDigits_zeros,
      ofDigits_wholeDigits, Decimal.value, he]
    simp [ofDigits]
  rw [hvalue]
  refine spells_point (List.append_ne_nil_of_left_ne_nil Nat.toDigits_ne_nil _)
    (List.forall_mem_append.mpr ⟨allDigits_toDigits _, allDigits_zeros e⟩) (List.cons_ne_nil _ _)
    (by decide) ?_
  rw [hwhole]
  rcases hd with hpos | rfl
  · exact no_leading_zero hpos (List.append_nil _)
  · obtain rfl : e = 0 := by simpa using he.symm
    intro x xs h
    cases h

theorem spells_split (hpos : 0 < d.digits) {w : Nat} (h0 : 0 < w)
    (hw : w < (Nat.toDigits 10 d.digits).length)
    (he : d.exponent = w - ((Nat.toDigits 10 d.digits).length : Int)) :
    Spells negative ((Nat.toDigits 10 d.digits).take w ++ '.' :: (Nat.toDigits 10 d.digits).drop w)
      d.value := by
  have hall := allDigits_toDigits d.digits
  have hdigits : digitsOf ((Nat.toDigits 10 d.digits).take w ++
      (Nat.toDigits 10 d.digits).drop w) = wholeDigits d.digits := by
    rw [List.take_append_drop]
    rfl
  have hvalue : d.value = ofDigits (digitsOf ((Nat.toDigits 10 d.digits).take w ++
      (Nat.toDigits 10 d.digits).drop w)) *
        10 ^ (-(((Nat.toDigits 10 d.digits).drop w).length : Int)) := by
    rw [hdigits, ofDigits_wholeDigits, Decimal.value, List.length_drop, he]
    congr 2
    omega
  have hfront : digitsOf ((Nat.toDigits 10 d.digits).take w) ++
      digitsOf ((Nat.toDigits 10 d.digits).drop w) = wholeDigits d.digits ++ [] := by
    rw [← digitsOf_append, hdigits, List.append_nil]
  rw [hvalue]
  refine spells_point ?_ (fun c hc => hall c (List.mem_of_mem_take hc)) ?_
    (fun c hc => hall c (List.mem_of_mem_drop hc)) (no_leading_zero hpos hfront)
  · rw [← List.length_pos_iff, List.length_take]
    omega
  · rw [← List.length_pos_iff, List.length_drop]
    omega

theorem spells_below {n : Nat}
    (he : d.exponent = -((n + (Nat.toDigits 10 d.digits).length : Nat) : Int)) :
    Spells negative (['0'] ++ '.' :: (List.replicate n '0' ++ Nat.toDigits 10 d.digits))
      d.value := by
  have hzero : digitsOf ['0'] = [0] := rfl
  have hdigits : digitsOf (['0'] ++ (List.replicate n '0' ++ Nat.toDigits 10 d.digits)) =
      List.replicate (n + 1) 0 ++ wholeDigits d.digits := by
    rw [digitsOf_append, digitsOf_append, digitsOf_zeros, hzero, List.replicate_succ]
    rfl
  have hvalue : d.value =
      ofDigits (digitsOf (['0'] ++ (List.replicate n '0' ++ Nat.toDigits 10 d.digits))) *
        10 ^ (-((List.replicate n '0' ++ Nat.toDigits 10 d.digits).length : Int)) := by
    rw [hdigits, ofDigits_append, ofDigits_zeros, Nat.zero_mul, Nat.zero_add, ofDigits_wholeDigits,
      Decimal.value, he, List.length_append, List.length_replicate]
  rw [hvalue]
  exact spells_point (List.cons_ne_nil _ _) (by decide)
    (List.append_ne_nil_of_right_ne_nil _ Nat.toDigits_ne_nil)
    (List.forall_mem_append.mpr ⟨allDigits_zeros n, allDigits_toDigits _⟩) (by simp [hzero])

theorem spells_positional (hd : d.IsPlain) :
    Spells negative
      (NumberLayout.json.renderPositional (Nat.toDigits 10 d.digits) d.exponent).toList
      d.value := by
  unfold NumberLayout.renderPositional NumberLayout.zeros
  dsimp only
  split
  next he =>
    obtain ⟨e, he⟩ := Int.eq_ofNat_of_zero_le he
    simp only [String.toList_append, String.toList_ofList, he, Int.toNat_natCast]
    exact spells_whole hd he
  next he =>
    have hpos : 0 < d.digits := hd.resolve_right fun h => he (by rw [h])
    split
    next hw =>
      obtain ⟨w, hw'⟩ := Int.eq_ofNat_of_zero_le hw.le
      simp only [String.toList_append, String.toList_ofList, hw', Int.toNat_natCast,
        List.append_assoc]
      exact spells_split hpos (by omega) (by omega) (by omega)
    next hw =>
      obtain ⟨n, hn⟩ := Int.eq_ofNat_of_zero_le (Int.neg_nonneg_of_nonpos (not_lt.mp hw))
      simp only [String.toList_append, String.toList_ofList, hn, Int.toNat_natCast,
        List.append_assoc]
      exact spells_below (by push_cast; omega)

theorem toList_renderScientific (c : Char) (fs : List Char) (lead : Int) :
    (NumberLayout.renderScientific (c :: fs) lead).toList =
      c :: ((if fs.isEmpty then [] else '.' :: fs) ++
        'e' :: (if decide (lead < 0) then '-' else '+') :: Nat.toDigits 10 lead.natAbs) := by
  have hfraction : (if fs.isEmpty then "" else "." ++ String.ofList fs).toList =
      if fs.isEmpty then [] else '.' :: fs := by
    split
    · rfl
    · simp only [String.toList_append, String.toList_ofList]
      rfl
  have hsign : (if lead < 0 then "-" else "+").toList =
      [if decide (lead < 0) then '-' else '+'] := by
    by_cases h : lead < 0 <;> simp [h]
  unfold NumberLayout.renderScientific
  simp only [List.drop_one, List.tail_cons, String.toList_append, hfraction, hsign,
    String.toList_ofList, Nat.toString_eq_repr, Nat.toList_repr, List.append_assoc]
  rfl

theorem spells_scientific (d : Decimal) :
    Spells negative
      (NumberLayout.renderScientific (Nat.toDigits 10 d.digits)
        (d.exponent + (Nat.toDigits 10 d.digits).length - 1)).toList d.value := by
  cases hdigits : Nat.toDigits 10 d.digits with
  | nil => exact absurd hdigits Nat.toDigits_ne_nil
  | cons c fs =>
    have hall : AllDigits (c :: fs) := hdigits ▸ allDigits_toDigits d.digits
    have hwhole : ofDigits (digitsOf (c :: fs)) = d.digits := by
      rw [← hdigits]
      exact ofDigits_wholeDigits d.digits
    have hlead : d.exponent + ((c :: fs).length : Int) - 1 = d.exponent + fs.length := by
      rw [List.length_cons]
      push_cast
      ring
    have hexponent : (if decide (d.exponent + (fs.length : Int) < 0) then
        -((d.exponent + fs.length).natAbs : Int) else (d.exponent + fs.length).natAbs) -
          (fs.length : Int) = d.exponent := by
      by_cases h : d.exponent + (fs.length : Int) < 0
      · rw [if_pos (decide_eq_true h)]
        omega
      · rw [if_neg (by simpa using h)]
        omega
    have hspells : Spells negative _ _ := spells_exponent (hall c List.mem_cons_self)
      (fun x hx => hall x (List.mem_cons_of_mem c hx)) (decide (d.exponent + (fs.length : Int) < 0))
      (d.exponent + fs.length).natAbs
    rw [hwhole, hexponent] at hspells
    rw [hlead, toList_renderScientific]
    exact hspells

theorem spells_renderDecimal (hd : d.IsPlain) :
    Spells negative (NumberLayout.json.renderDecimal d).toList d.value := by
  unfold NumberLayout.renderDecimal
  dsimp only [NumberLayout.json]
  split
  · exact spells_positional hd
  · exact spells_scientific d

end

-- ---------------------------------------------------------------------------
-- Numbers
-- ---------------------------------------------------------------------------

/-- What a numeral says without rounding. -/
def Numeral.Denotes (numeral : Numeral) : Number → Prop
  | .int n => ¬ numeral.IsReal ∧
    n = if numeral.negative then -(ofDigits numeral.whole : Int) else ofDigits numeral.whole
  | .real x => numeral.IsReal ∧ numeral.negative = isMinus x ∧
    numeral.amount = (shortestDecimal x).value

theorem Numeral.Denotes.unique {numeral : Numeral} {m n : Number} (hm : numeral.Denotes m)
    (hn : numeral.Denotes n) : m = n := by
  cases m with
  | int m =>
    cases n with
    | int n => rw [hm.2, hn.2]
    | real y => exact absurd hn.1 hm.1
  | real x =>
    cases n with
    | int n => exact absurd hm.1 hn.1
    | real y =>
      rw [eq_of_rung_eq (rung_eq_of_value_eq (hm.2.2.symm.trans hn.2.2))
        (hm.2.1.symm.trans hn.2.1)]

def readSigned : List Char → Except Break (Numeral × List Char)
  | '-' :: cs => readNumeral true cs
  | cs => readNumeral false cs

theorem isDigit_of_readNumeral {negative : Bool} {c : Char} {cs rest : List Char}
    {numeral : Numeral} (h : readNumeral negative (c :: cs) = .ok (numeral, rest)) :
    c.isDigit = true := by
  obtain ⟨whole, _, _, _, _, hs, -⟩ := readNumeral_eq_ok.mp h
  obtain ⟨hne, hd⟩ := readSomeDigits_eq_ok.mp hs
  by_contra hc
  rw [readDigits, List.takeWhile_cons_of_neg hc] at hd
  exact hne (congrArg Prod.fst hd).symm

theorem readSigned_plus {cs rest : List Char} {numeral : Numeral}
    (h : readNumeral false cs = .ok (numeral, rest)) : readSigned cs = .ok (numeral, rest) := by
  unfold readSigned
  split
  · exact absurd (isDigit_of_readNumeral h) (by decide)
  · exact h

theorem toList_render_real {x : Float} (hx : x.isFinite = true) :
    (Number.real x).render.toList = (if isMinus x then ['-'] else []) ++
      (NumberLayout.json.renderDecimal (shortestDecimal x)).toList := by
  have hsort : x.isNaN = false ∧ x.isInf = false := by
    unfold Float.isFinite Float.Model.isFinite at hx
    unfold Float.isNaN Float.isInf Float.Model.isNaN Float.Model.isInf
    cases hu : x.toModel.unpack with
    | notANumber | infinity =>
      rw [hu] at hx
      cases hx
    | zero | finite => exact ⟨rfl, rfl⟩
  have hsign : (if x.toBits.toNat / Nat.pow 2 63 = 1 then "-" else "").toList =
      if isMinus x then ['-'] else [] := by
    unfold isMinus
    by_cases h : x.toBits.toNat / Nat.pow 2 63 = 1 <;> simp [h]
  unfold Number.render NumberLayout.render
  dsimp only
  rw [if_pos hx, hsort.1, hsort.2, if_neg Bool.false_ne_true, if_neg Bool.false_ne_true,
    String.toList_append, hsign]

theorem Number.readSigned_render {n : Number} (hn : n.IsFinite) {tail : List Char}
    (ht : EndsNumeral tail) :
    ∃ numeral, readSigned (n.render.toList ++ tail) = .ok (numeral, tail) ∧ numeral.Denotes n := by
  cases n with
  | int n =>
    have hreal {negative : Bool} {whole : List Nat} :
        ¬ Numeral.IsReal { negative, whole } := by simp [Numeral.IsReal]
    cases n with
    | ofNat n =>
      refine ⟨{ negative := false, whole := wholeDigits n }, readSigned_plus ?_, hreal,
        congrArg Int.ofNat (ofDigits_wholeDigits n).symm⟩
      rw [toList_render_ofNat]
      exact readNumeral_append ht (readNumeral_toDigits false n)
    | negSucc n =>
      refine ⟨{ negative := true, whole := wholeDigits (n + 1) }, ?_, hreal,
        congrArg (fun m : Nat => -(m : Int)) (ofDigits_wholeDigits (n + 1)).symm⟩
      rw [toList_render_negSucc]
      exact readNumeral_append ht (readNumeral_toDigits true (n + 1))
  | real x =>
    have hspells : Spells (isMinus x) _ _ := spells_renderDecimal (isPlain_shortestDecimal x)
    obtain ⟨numeral, hread, hnegative, hreal, hamount⟩ := hspells
    refine ⟨numeral, ?_, hreal, hnegative, hamount⟩
    rw [toList_render_real hn]
    cases hs : isMinus x with
    | false =>
      rw [hs] at hread
      exact readSigned_plus (readNumeral_append ht hread)
    | true =>
      rw [hs] at hread
      exact readNumeral_append ht hread

theorem Number.head_render {n : Number} (hn : n.IsFinite) :
    ∃ c rest, n.render.toList = c :: rest ∧ (c = '-' ∨ c.isDigit = true) := by
  obtain ⟨numeral, hread, -⟩ := readSigned_render hn endsNumeral_nil
  rw [List.append_nil] at hread
  unfold readSigned at hread
  split at hread
  next cs hcs => exact ⟨'-', cs, hcs, .inl rfl⟩
  next cs hminus =>
    cases hcs : n.render.toList with
    | nil =>
      rw [hcs] at hread
      cases hread
    | cons c cs =>
      rw [hcs] at hread
      exact ⟨c, cs, rfl, .inr (isDigit_of_readNumeral hread)⟩

/-- The texts of distinct numbers differ, whatever follows them. -/
theorem Number.render_append_inj {m n : Number} (hm : m.IsFinite) (hn : n.IsFinite)
    {s t : List Char} (hs : EndsNumeral s) (ht : EndsNumeral t)
    (h : m.render.toList ++ s = n.render.toList ++ t) : m = n ∧ s = t := by
  obtain ⟨numeral, hread, hdenotes⟩ := readSigned_render hm hs
  obtain ⟨numeral', hread', hdenotes'⟩ := readSigned_render hn ht
  rw [h, hread'] at hread
  obtain ⟨rfl, rfl⟩ := Prod.mk.inj (Except.ok.inj hread)
  exact ⟨hdenotes.unique hdenotes', rfl⟩

end Crew

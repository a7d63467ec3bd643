import SelectorPath.Proofs.Query

/-! The language of position formulas. A formula is `odd`, `even`, an integer, or a sum of terms of
which only the first may go without a sign and at least one is a multiple of `n`. White space may
stand at both ends and next to a sign, and capitals do not count. Reading accepts exactly the texts
of this language whose numbers fit in 64 bits with a sign, and gives what they write. -/

namespace SelectorPath

open Text

namespace Formula

/-! ### The language -/

/-- A number of 64 bits with a sign. -/
def InRange (n : Int) : Prop :=
  -2 ^ 63 ≤ n ∧ n < 2 ^ 63

/-- Where white space stands between two characters, one of them is a sign. -/
def Spaced (cs : List Char) : Prop :=
  ∀ c gap d, c :: (gap ++ [d]) <:+: cs → gap ≠ [] → (∀ x ∈ gap, isWhite x = true) →
    isWhite c = false → isWhite d = false → isSign c = true ∨ isSign d = true

/-- A text without its white space and its capitals. -/
def compact (cs : List Char) : List Char :=
  (cs.filter fun c => !isWhite c).map Char.toLower

/-- One or more decimal digits. -/
structure IsNumeral (cs : List Char) : Prop where
  nonempty : cs ≠ []
  digits : ∀ c ∈ cs, c.isDigit = true

/-- A sign, and whether it is a minus; where there is none, it is a plus. -/
inductive Sign : List Char → Bool → Prop
  | none : Sign [] false
  | plus : Sign ['+'] false
  | minus : Sign ['-'] true

/-- A decimal number with or without a sign. -/
inductive Integer : List Char → Int → Prop
  | intro {mark digits : List Char} {negative : Bool} (sign : Sign mark negative)
      (numeral : IsNumeral digits) : Integer (mark ++ digits) (signed negative (ofDigits digits))

namespace Term

/-- A term without its sign: its magnitude, and whether it is a constant or a multiple. -/
inductive Body : List Char → Nat → (Int → Term) → Prop
  | constant {digits : List Char} (numeral : IsNumeral digits) (fits : ofDigits digits < 2 ^ 63) :
      Body digits (ofDigits digits) constant
  | multiple {digits : List Char} (numeral : IsNumeral digits) (fits : ofDigits digits < 2 ^ 63) :
      Body (digits ++ ['n']) (ofDigits digits) multiple
  | unit : Body ['n'] 1 multiple

inductive Spells : List Char → Term → Prop
  | intro {mark body : List Char} {negative : Bool} {magnitude : Nat} {kind : Int → Term}
      (sign : Sign mark negative) (term : Body body magnitude kind) :
      Spells (mark ++ body) (kind (signed negative magnitude))

def value : Term → Int
  | multiple coefficient => coefficient
  | constant value => value

end Term

def StartsWithSign (cs : List Char) : Prop :=
  ∃ c ∈ cs.head?, isSign c = true

/-- A text is made of pieces that write the terms; only the first may go without a sign. -/
def SpellsTerms (cs : List Char) (terms : List Term) : Prop :=
  ∃ pieces : List (List Char), pieces.flatten = cs ∧ List.Forall₂ Term.Spells pieces terms ∧
    ∀ piece ∈ pieces.tail, StartsWithSign piece

/-- Summing from left to right never leaves the range. -/
def SumsInRange (numbers : List Int) : Prop :=
  ∀ part, part <+: numbers → InRange part.sum

/-- A text without white space and capitals writes a formula. -/
inductive Spells : List Char → Formula → Prop
  | odd : Spells "odd".toList (linear 2 1)
  | even : Spells "even".toList (linear 2 0)
  | index {cs : List Char} {n : Int} (integer : Integer cs n) (fits : InRange n) :
      Spells cs (index n)
  | linear {cs : List Char} {terms : List Term} (spelled : SpellsTerms cs terms)
      (multiple : terms.filterMap Term.coefficient? ≠ [])
      (coefficients : SumsInRange (terms.filterMap Term.coefficient?))
      (constants : SumsInRange (terms.filterMap Term.constant?)) :
      Spells cs
        (linear (terms.filterMap Term.coefficient?).sum (terms.filterMap Term.constant?).sum)

/-- A text writes a formula. -/
def Writes (text : String) (formula : Formula) : Prop :=
  Spaced text.toList ∧ Spells (compact text.toList) formula

/-! ### White space -/

/-- White space after `previous`, of which there is some already if `gap` says so, ends at a sign
unless `previous` is one. -/
def GapFits (previous : Char) (gap : Bool) (cs : List Char) : Prop :=
  ∀ ws d, ws ++ [d] <+: cs → gap = true ∨ ws ≠ [] → (∀ x ∈ ws, isWhite x = true) →
    isWhite d = false → isSign previous = true ∨ isSign d = true

theorem gapFits_nil (previous : Char) (gap : Bool) : GapFits previous gap [] := by
  intro ws d h
  simp at h

theorem gapFits_cons_of_white {previous c : Char} {gap : Bool} {cs : List Char}
    (hc : isWhite c = true) : GapFits previous gap (c :: cs) ↔ GapFits previous true cs := by
  constructor
  · intro h ws d hprefix _ hws hd
    apply h (c :: ws) d
    · exact List.cons_prefix_cons.2 ⟨rfl, hprefix⟩
    · exact .inr (List.cons_ne_nil c ws)
    · exact List.forall_mem_cons.2 ⟨hc, hws⟩
    · exact hd
  · intro h ws d hprefix _ hws hd
    cases ws with
    | nil =>
      obtain ⟨rfl, _⟩ := List.cons_prefix_cons.1 hprefix
      rw [hc] at hd
      cases hd
    | cons x ws =>
      obtain ⟨_, htail⟩ := List.cons_prefix_cons.1 hprefix
      exact h ws d htail (.inl rfl) (List.forall_mem_cons.1 hws).2 hd

theorem gapFits_cons_of_dark {previous c : Char} {gap : Bool} {cs : List Char}
    (hc : isWhite c = false) :
    GapFits previous gap (c :: cs) ↔ (gap && !isSign previous && !isSign c) = false := by
  constructor
  · intro h
    by_contra hbad
    have hsign := h [] c (by simp)
    grind
  · intro h ws d hprefix hgap hws hd
    cases ws with
    | nil =>
      obtain ⟨rfl, _⟩ := List.cons_prefix_cons.1 hprefix
      grind
    | cons x ws =>
      obtain ⟨rfl, _⟩ := List.cons_prefix_cons.1 hprefix
      rw [(List.forall_mem_cons.1 hws).1] at hc
      cases hc

theorem spaced_nil : Spaced [] := by
  intro c gap d h
  simp at h

theorem spaced_cons_iff {x : Char} {cs : List Char} :
    Spaced (x :: cs) ↔ (isWhite x = false → GapFits x false cs) ∧ Spaced cs := by
  constructor
  · intro h
    refine ⟨fun hx ws d hprefix hws hwhite hd => ?_, fun c gap d hinfix => ?_⟩
    · refine h x ws d (List.infix_cons_iff.2 (.inl ?_)) (hws.resolve_left (by simp)) hwhite hx hd
      exact List.cons_prefix_cons.2 ⟨rfl, hprefix⟩
    · exact h c gap d (List.infix_cons_iff.2 (.inr hinfix))
  · rintro ⟨hfirst, hrest⟩ c gap d hinfix hgap hwhite hc hd
    rcases List.infix_cons_iff.1 hinfix with hprefix | hinfix
    · obtain ⟨rfl, htail⟩ := List.cons_prefix_cons.1 hprefix
      exact hfirst hc gap d htail (.inr hgap) hwhite hd
    · exact hrest c gap d hinfix hgap hwhite hc hd

theorem spaced_cons_of_white {x : Char} {cs : List Char} (hx : isWhite x = true) :
    Spaced (x :: cs) ↔ Spaced cs := by
  simp [spaced_cons_iff, hx]

theorem compact_cons_of_white {x : Char} {cs : List Char} (hx : isWhite x = true) :
    compact (x :: cs) = compact cs := by
  simp [compact, hx]

theorem compact_cons_of_dark {x : Char} {cs : List Char} (hx : isWhite x = false) :
    compact (x :: cs) = x.toLower :: compact cs := by
  simp [compact, hx]

/-- White space at the end changes nothing. -/
theorem squeeze_trimEnd (previous : Option Char) (gap : Bool) (cs : List Char) :
    squeeze previous gap (trimEnd cs) = squeeze previous gap cs := by
  induction cs generalizing previous gap with
  | nil => rfl
  | cons c cs ih =>
    have htrim : trimEnd (c :: cs) =
        if (trimEnd cs).isEmpty && isWhite c then [] else c :: trimEnd cs := rfl
    rw [htrim]
    split
    · next h =>
      simp only [Bool.and_eq_true, List.isEmpty_iff] at h
      rw [squeeze, squeeze, if_pos h.2, ← ih, h.1, squeeze]
    · rw [squeeze, squeeze, ih, ih]

theorem squeeze_eq_some_iff {previous : Char} {gap : Bool} {cs out : List Char} :
    squeeze (some previous) gap cs = some out ↔
      (GapFits previous gap cs ∧ Spaced cs) ∧ compact cs = out := by
  -- What has been read asks only for the end of the white space that is open; the rest is `Spaced`
  -- by itself.
  induction cs generalizing previous gap out with
  | nil => simp [squeeze, gapFits_nil, spaced_nil, compact]
  | cons c cs ih =>
    cases hc : isWhite c with
    | true =>
      rw [squeeze, if_pos hc, ih, gapFits_cons_of_white hc, spaced_cons_of_white hc,
        compact_cons_of_white hc]
    | false =>
      rw [squeeze, if_neg (by simp [hc]), Option.any_some, gapFits_cons_of_dark hc,
        spaced_cons_iff, compact_cons_of_dark hc]
      cases hgap : gap && !isSign previous && !isSign c with
      | true => simp
      | false =>
        simp only [Bool.false_eq_true, if_false, Option.map_eq_some_iff, ih]
        grind

theorem squeeze_trim_eq_some_iff {cs out : List Char} :
    squeeze none false (trim cs) = some out ↔ Spaced cs ∧ compact cs = out := by
  rw [trim, squeeze_trimEnd]
  induction cs with
  | nil => simp [squeeze, spaced_nil, compact]
  | cons c cs ih =>
    cases hc : isWhite c with
    | true =>
      rw [List.dropWhile_cons_of_pos hc, ih, spaced_cons_of_white hc, compact_cons_of_white hc]
    | false =>
      rw [List.dropWhile_cons_of_neg (by simp [hc]), squeeze, if_neg (by simp [hc]),
        if_neg (by simp), Option.map_eq_some_iff, spaced_cons_iff, compact_cons_of_dark hc]
      simp only [squeeze_eq_some_iff, hc, forall_const]
      grind

/-! ### Integers -/

theorem checked?_eq_some_iff {n m : Int} : checked? n = some m ↔ InRange n ∧ n = m := by
  have hrange : (-(greatest : Int) - 1 ≤ n ∧ n ≤ greatest) ↔ InRange n := by
    simp only [greatest, InRange]
    omega
  rw [checked?, ← hrange]
  split
  · next h => simp [h]
  · next h => simp only [reduceCtorEq, h, false_and]

theorem isSign_of_isDigit {c : Char} (h : c.isDigit = true) : isSign c = false := by
  by_contra hsign
  simp only [isSign, Bool.not_eq_false, Bool.or_eq_true, beq_iff_eq] at hsign
  rcases hsign with rfl | rfl <;> simp at h

theorem splitSign_of_stops {cs : List Char} (h : Stops isSign cs) :
    splitSign cs = (false, cs) := by
  unfold splitSign
  split
  · simp [isSign] at h
  · simp [isSign] at h
  · rfl

/-- What follows a sign is what is left of the text without it. -/
theorem splitSign_append {mark body : List Char} {negative : Bool} (sign : Sign mark negative)
    (h : Stops isSign body) : splitSign (mark ++ body) = (negative, body) := by
  cases sign with
  | none => exact splitSign_of_stops h
  | plus => rfl
  | minus => rfl

theorem exists_sign (cs : List Char) :
    ∃ mark, Sign mark (splitSign cs).1 ∧ mark ++ (splitSign cs).2 = cs := by
  unfold splitSign
  split
  · exact ⟨['+'], .plus, rfl⟩
  · exact ⟨['-'], .minus, rfl⟩
  · exact ⟨[], .none, rfl⟩

theorem IsNumeral.stops {digits : List Char} (h : IsNumeral digits) : Stops isSign digits := by
  intro c hc
  exact isSign_of_isDigit (h.digits c (List.mem_of_mem_head? hc))

theorem readInteger_eq_some_iff {cs : List Char} {n : Int} :
    readInteger cs = some n ↔ Integer cs n ∧ InRange n := by
  constructor
  · intro h
    obtain ⟨mark, sign, htext⟩ := exists_sign cs
    simp only [readInteger] at h
    split at h
    · next hdigits =>
      obtain ⟨hrange, rfl⟩ := checked?_eq_some_iff.1 h
      refine ⟨?_, hrange⟩
      have hinteger := Integer.intro sign ⟨hdigits.1, List.all_eq_true.1 hdigits.2⟩
      rwa [htext] at hinteger
    · cases h
  · rintro ⟨⟨sign, numeral⟩, hrange⟩
    simp only [readInteger, splitSign_append sign numeral.stops]
    rw [if_pos ⟨numeral.nonempty, List.all_eq_true.2 numeral.digits⟩]
    exact checked?_eq_some_iff.2 ⟨hrange, rfl⟩

/-! ### Terms -/

namespace Term

theorem magnitude?_eq_some_iff {digits : List Char} {n : Nat} :
    magnitude? digits = some n ↔ ofDigits digits < 2 ^ 63 ∧ ofDigits digits = n := by
  have hrange : ofDigits digits ≤ greatest ↔ ofDigits digits < 2 ^ 63 := by
    simp only [greatest]
    omega
  rw [magnitude?, ← hrange]
  split
  · next h => simp [h]
  · next h => simp [h]

theorem Body.isSign {body : List Char} {magnitude : Nat} {kind : Int → Term}
    (h : Body body magnitude kind) : ∀ c ∈ body, isSign c = false := by
  cases h with
  | constant numeral => exact fun c hc => isSign_of_isDigit (numeral.digits c hc)
  | multiple numeral =>
    intro c hc
    rcases List.mem_append.1 hc with hc | hc
    · exact isSign_of_isDigit (numeral.digits c hc)
    · rw [List.mem_singleton.1 hc]
      rfl
  | unit => simp [Formula.isSign]

theorem read_eq (cs : List Char) : read cs = readBody (splitSign cs).1 (splitSign cs).2 := rfl

theorem readBody_eq_some_iff {negative : Bool} {body : List Char} {term : Term} :
    readBody negative body = some term ↔
      ∃ magnitude kind, Body body magnitude kind ∧ kind (signed negative magnitude) = term := by
  constructor
  · intro h
    have htext := List.takeWhile_append_dropWhile (p := Char.isDigit) (l := body)
    have hdigits := List.all_eq_true.1 (all_takeWhile Char.isDigit body)
    unfold readBody at h
    generalize body.takeWhile Char.isDigit = digits at *
    simp only at h
    split at h
    · next hrest =>
      rw [hrest] at htext
      subst htext
      split at h
      · next hnil =>
        cases h
        rw [hnil]
        exact ⟨1, multiple, .unit, rfl⟩
      · next hne =>
        obtain ⟨n, hn, rfl⟩ := Option.map_eq_some_iff.1 h
        obtain ⟨hfits, rfl⟩ := magnitude?_eq_some_iff.1 hn
        exact ⟨_, multiple, .multiple ⟨hne, hdigits⟩ hfits, rfl⟩
    · next hrest =>
      rw [hrest, List.append_nil] at htext
      subst htext
      split at h
      · cases h
      · next hne =>
        obtain ⟨n, hn, rfl⟩ := Option.map_eq_some_iff.1 h
        obtain ⟨hfits, rfl⟩ := magnitude?_eq_some_iff.1 hn
        exact ⟨_, constant, .constant ⟨hne, hdigits⟩ hfits, rfl⟩
    · cases h
  · rintro ⟨magnitude, kind, hbody, rfl⟩
    cases hbody with
    | constant numeral fits =>
      have hall := List.all_eq_true.2 numeral.digits
      have htake := takeWhile_run hall (stops_nil Char.isDigit)
      have hdrop := dropWhile_run hall (stops_nil Char.isDigit)
      rw [List.append_nil] at htake hdrop
      simp [readBody, htake, hdrop, numeral.nonempty, magnitude?_eq_some_iff.2 ⟨fits, rfl⟩]
    | @multiple digits numeral fits =>
      have hall := List.all_eq_true.2 numeral.digits
      have hstop : Stops Char.isDigit ['n'] := stops_cons.2 rfl
      simp [readBody, takeWhile_run hall hstop, dropWhile_run hall hstop, numeral.nonempty,
        magnitude?_eq_some_iff.2 ⟨fits, rfl⟩]
    | unit => rfl

theorem read_eq_some_iff {cs : List Char} {term : Term} :
    read cs = some term ↔ Spells cs term := by
  rw [read_eq, readBody_eq_some_iff]
  constructor
  · rintro ⟨magnitude, kind, hbody, rfl⟩
    obtain ⟨mark, sign, htext⟩ := exists_sign cs
    have hspells := Spells.intro sign hbody
    rwa [htext] at hspells
  · rintro ⟨sign, hbody⟩
    rw [splitSign_append sign fun c hc => hbody.isSign c (List.mem_of_mem_head? hc)]
    exact ⟨_, _, hbody, rfl⟩

theorem inRange_signed (negative : Bool) {magnitude : Nat} (h : magnitude < 2 ^ 63) :
    InRange (signed negative magnitude) := by
  unfold signed InRange
  split <;> omega

/-- A sign before a number that fits leaves it in range. -/
theorem inRange_value_of_read {cs : List Char} {term : Term} (h : read cs = some term) :
    InRange term.value := by
  obtain ⟨sign, hbody⟩ := read_eq_some_iff.1 h
  cases hbody with
  | constant numeral fits => exact inRange_signed _ fits
  | multiple numeral fits => exact inRange_signed _ fits
  | unit => exact inRange_signed _ (by decide)

theorem Spells.ne_nil {piece : List Char} {term : Term} (h : Spells piece term) : piece ≠ [] := by
  obtain ⟨sign, hbody⟩ := h
  cases hbody with
  | constant numeral => simp [numeral.nonempty]
  | multiple | unit => simp

/-- A term has no sign but the one that it may start with. -/
theorem Spells.isSign_tail {piece : List Char} {term : Term} (h : Spells piece term) :
    ∀ c ∈ piece.tail, isSign c = false := by
  obtain ⟨sign, hbody⟩ := h
  have hmem : ∀ c ∈ _, isSign c = false := hbody.isSign
  cases sign with
  | none => exact fun c hc => hmem c (List.mem_of_mem_tail hc)
  | plus | minus => exact hmem

end Term

/-! ### Sums -/

theorem flatten_cutAtSigns (cs : List Char) : (cutAtSigns cs).flatten = cs := by
  fun_induction cutAtSigns cs <;> simp_all

/-- The first piece starts as the text does. -/
theorem exists_cutAtSigns_cons (c : Char) (cs : List Char) :
    ∃ piece pieces, cutAtSigns (c :: cs) = (c :: piece) :: pieces := by
  rw [cutAtSigns]
  split
  · exact ⟨_, _, rfl⟩
  · split <;> exact ⟨_, _, rfl⟩

theorem startsWithSign_of_mem_tail {cs piece : List Char} (h : piece ∈ (cutAtSigns cs).tail) :
    StartsWithSign piece := by
  fun_induction cutAtSigns cs with
  | case1 => cases h
  | case2 => cases h
  | case3 c cs first rest hcut hsign ih =>
    rcases List.mem_cons.1 h with rfl | h
    · simpa [StartsWithSign, Option.any_eq_true] using hsign
    · exact ih (by simpa [hcut] using h)
  | case4 c cs first rest hcut hsign ih => exact ih (by simpa [hcut] using h)

/-- A piece without a sign inside is cut off before the next sign. -/
theorem cutAtSigns_append {piece rest : List Char} (hne : piece ≠ [])
    (hpiece : ∀ c ∈ piece.tail, isSign c = false) (hrest : rest ≠ [] → StartsWithSign rest) :
    cutAtSigns (piece ++ rest) = piece :: cutAtSigns rest := by
  induction piece with
  | nil => exact absurd rfl hne
  | cons c piece ih =>
    cases piece with
    | nil =>
      cases rest with
      | nil => rfl
      | cons d rest =>
        obtain ⟨e, he, hsign⟩ := hrest (by simp)
        cases he
        obtain ⟨first, pieces, hcut⟩ := exists_cutAtSigns_cons d rest
        rw [List.singleton_append, cutAtSigns, hcut]
        simp [hsign]
    | cons d piece =>
      have hd : isSign d = false := hpiece d (by simp)
      have htail := ih (by simp) fun x hx => hpiece x (List.mem_cons_of_mem d hx)
      simp_all [cutAtSigns]

theorem cutAtSigns_flatten {pieces : List (List Char)} {terms : List Term}
    (hterms : List.Forall₂ Term.Spells pieces terms)
    (hsigns : ∀ piece ∈ pieces.tail, StartsWithSign piece) :
    cutAtSigns pieces.flatten = pieces := by
  induction hterms with
  | nil => rfl
  | @cons piece term pieces terms hterm hterms ih =>
    have hrest : pieces.flatten ≠ [] → StartsWithSign pieces.flatten := by
      intro hne
      cases hterms with
      | nil => exact absurd rfl hne
      | @cons next _ others _ hnext _ =>
        obtain ⟨c, hc, hsign⟩ := hsigns next (by simp)
        refine ⟨c, ?_, hsign⟩
        obtain ⟨d, body, rfl⟩ := List.exists_cons_of_ne_nil hnext.ne_nil
        exact hc
    rw [List.flatten_cons, cutAtSigns_append hterm.ne_nil hterm.isSign_tail hrest,
      ih fun piece hpiece => hsigns piece (List.mem_of_mem_tail hpiece)]

theorem mapM_eq_some_iff {α β : Type} {f : α → Option β} {xs : List α} {ys : List β} :
    xs.mapM f = some ys ↔ List.Forall₂ (fun x y => f x = some y) xs ys := by
  induction xs generalizing ys with
  | nil => simp [eq_comm]
  | cons x xs ih =>
    simp only [List.mapM_cons, Option.bind_eq_bind, Option.bind_eq_some_iff, ih,
      List.forall₂_cons_left_iff]
    simp [eq_comm]

theorem mapM_read_eq_some_iff {cs : List Char} {terms : List Term} :
    (cutAtSigns cs).mapM Term.read = some terms ↔ SpellsTerms cs terms := by
  simp only [mapM_eq_some_iff, Term.read_eq_some_iff]
  constructor
  · intro h
    exact ⟨cutAtSigns cs, flatten_cutAtSigns cs, h, fun piece => startsWithSign_of_mem_tail⟩
  · rintro ⟨pieces, rfl, hterms, hsigns⟩
    rwa [cutAtSigns_flatten hterms hsigns]

/-- The sums of numbers that are added to a first one. -/
theorem foldlM_checked?_eq_some_iff {start n : Int} {numbers : List Int} (hstart : InRange start) :
    numbers.foldlM (fun sum number => checked? (sum + number)) start = some n ↔
      (∀ part, part <+: numbers → InRange (start + part.sum)) ∧ start + numbers.sum = n := by
  induction numbers generalizing start with
  | nil => simp [hstart]
  | cons number numbers ih =>
    rw [List.foldlM_cons, Option.bind_eq_bind, Option.bind_eq_some_iff]
    simp only [checked?_eq_some_iff]
    constructor
    · rintro ⟨_, ⟨hrange, rfl⟩, hrest⟩
      obtain ⟨hparts, hsum⟩ := (ih hrange).1 hrest
      refine ⟨fun part hpart => ?_, by rw [List.sum_cons, ← add_assoc, hsum]⟩
      rcases List.prefix_cons_iff.1 hpart with rfl | ⟨part, rfl, htail⟩
      · simpa using hstart
      · rw [List.sum_cons, ← add_assoc]
        exact hparts part htail
    · rintro ⟨hparts, hsum⟩
      have hnext := hparts [number] (by simp)
      rw [List.sum_singleton] at hnext
      refine ⟨_, ⟨hnext, rfl⟩, (ih hnext).2 ⟨fun part hpart => ?_, ?_⟩⟩
      · have := hparts (number :: part) (List.cons_prefix_cons.2 ⟨rfl, hpart⟩)
        rwa [List.sum_cons, ← add_assoc] at this
      · rw [← hsum, List.sum_cons, add_assoc]

theorem sum?_eq_some_iff {numbers : List Int} {n : Int} :
    sum? numbers = some n ↔ SumsInRange numbers ∧ numbers.sum = n := by
  have hzero : InRange 0 := by simp [InRange]
  rw [sum?, foldlM_checked?_eq_some_iff hzero]
  simp [SumsInRange]

theorem ofTerms?_eq_some_iff {terms : List Term} {formula : Formula} :
    ofTerms? terms = some formula ↔
      terms.filterMap Term.coefficient? ≠ [] ∧
        SumsInRange (terms.filterMap Term.coefficient?) ∧
        SumsInRange (terms.filterMap Term.constant?) ∧
        linear (terms.filterMap Term.coefficient?).sum (terms.filterMap Term.constant?).sum =
          formula := by
  simp only [ofTerms?]
  split
  · next h =>
    rw [List.isEmpty_iff] at h
    simp [h]
  · next h =>
    rw [List.isEmpty_iff] at h
    simp only [Option.bind_eq_bind, Option.bind_eq_some_iff, sum?_eq_some_iff]
    constructor
    · rintro ⟨_, ⟨hcoefficients, rfl⟩, _, ⟨hconstants, rfl⟩, hformula⟩
      exact ⟨h, hcoefficients, hconstants, Option.some.inj hformula⟩
    · rintro ⟨_, hcoefficients, hconstants, rfl⟩
      exact ⟨_, ⟨hcoefficients, rfl⟩, _, ⟨hconstants, rfl⟩, rfl⟩

/-! ### Formulas -/

theorem Integer.not_mem {cs : List Char} {n : Int} (h : Integer cs n) : 'n' ∉ cs := by
  obtain ⟨sign, numeral⟩ := h
  have hdigits : 'n' ∉ _ := fun hn => absurd (numeral.digits 'n' hn) (by decide)
  cases sign <;> simp [hdigits]

theorem Term.Spells.mem {cs : List Char} {n : Int} (h : Spells cs (.multiple n)) : 'n' ∈ cs := by
  generalize hterm : Term.multiple n = term at h
  obtain ⟨sign, hbody⟩ := h
  cases hbody with
  | constant => cases hterm
  | multiple | unit => simp

/-- A sum with a multiple is not an integer. -/
theorem SpellsTerms.mem {cs : List Char} {terms : List Term} (h : SpellsTerms cs terms)
    (hmultiple : terms.filterMap Term.coefficient? ≠ []) : 'n' ∈ cs := by
  obtain ⟨pieces, rfl, hterms, _⟩ := h
  obtain ⟨n, hn⟩ := List.exists_mem_of_ne_nil _ hmultiple
  obtain ⟨term, hterm, hcoefficient⟩ := List.mem_filterMap.1 hn
  obtain ⟨piece, hpiece, hspells⟩ := exists_left_of_forall₂ hterms hterm
  cases term with
  | constant => cases hcoefficient
  | multiple => exact List.mem_flatten.2 ⟨piece, hpiece, hspells.mem⟩

theorem spells_of_readCompact {cs : List Char} {formula : Formula}
    (h : readCompact cs = some formula) : Spells cs formula := by
  unfold readCompact at h
  split at h
  · next hodd =>
    cases h
    rw [hodd]
    exact .odd
  · split at h
    · next heven =>
      cases h
      rw [heven]
      exact .even
    · split at h
      · next position hinteger =>
        cases h
        obtain ⟨hspelled, hrange⟩ := readInteger_eq_some_iff.1 hinteger
        exact .index hspelled hrange
      · obtain ⟨terms, hterms, hsum⟩ := Option.bind_eq_some_iff.1 h
        obtain ⟨hmultiple, hcoefficients, hconstants, rfl⟩ := ofTerms?_eq_some_iff.1 hsum
        exact .linear (mapM_read_eq_some_iff.1 hterms) hmultiple hcoefficients hconstants

/-- The two words are neither integers nor sums. -/
theorem ne_words (cs : List Char)
    (h : readInteger cs ≠ none ∨ (cutAtSigns cs).mapM Term.read ≠ none) :
    cs ≠ "odd".toList ∧ cs ≠ "even".toList := by
  constructor <;> rintro rfl <;> rcases h with h | h <;> exact h rfl

theorem readCompact_of_spells {cs : List Char} {formula : Formula} (h : Spells cs formula) :
    readCompact cs = some formula := by
  cases h with
  | odd => rfl
  | even => rfl
  | index integer fits =>
    have hread := readInteger_eq_some_iff.2 ⟨integer, fits⟩
    obtain ⟨hodd, heven⟩ := ne_words cs (.inl (by simp [hread]))
    rw [readCompact, if_neg hodd, if_neg heven, hread]
  | linear spelled multiple coefficients constants =>
    have hterms := mapM_read_eq_some_iff.2 spelled
    have hsum := ofTerms?_eq_some_iff.2 ⟨multiple, coefficients, constants, rfl⟩
    obtain ⟨hodd, heven⟩ := ne_words cs (.inr (by simp [hterms]))
    have hinteger : readInteger cs = none := by
      rw [Option.eq_none_iff_forall_ne_some]
      intro n hn
      exact (readInteger_eq_some_iff.1 hn).1.not_mem (spelled.mem multiple)
    rw [readCompact, if_neg hodd, if_neg heven, hinteger]
    simp only [hterms]
    exact hsum

theorem readCompact_eq_some_iff {cs : List Char} {formula : Formula} :
    readCompact cs = some formula ↔ Spells cs formula :=
  ⟨spells_of_readCompact, readCompact_of_spells⟩

theorem parse?_eq_some_iff {text : String} {formula : Formula} :
    parse? text = some formula ↔ Writes text formula := by
  rw [parse?, Option.bind_eq_bind, Option.bind_eq_some_iff]
  simp only [squeeze_trim_eq_some_iff, readCompact_eq_some_iff, Writes]
  constructor
  · rintro ⟨_, ⟨hspaced, rfl⟩, hspells⟩
    exact ⟨hspaced, hspells⟩
  · rintro ⟨hspaced, hspells⟩
    exact ⟨_, ⟨hspaced, rfl⟩, hspells⟩

/-- The numbers of a formula fit in 64 bits with a sign. -/
def Fits : Formula → Prop
  | index position => InRange position
  | linear factor offset => InRange factor ∧ InRange offset

theorem Spells.fits {cs : List Char} {formula : Formula} (h : Spells cs formula) :
    formula.Fits := by
  cases h with
  | odd | even => simp [Fits, InRange]
  | index _ fits => exact fits
  | linear _ _ coefficients constants =>
    exact ⟨coefficients _ List.prefix_rfl, constants _ List.prefix_rfl⟩

end Formula

/-- An argument is accepted exactly if it writes a formula, which is then the result, and otherwise
is refused as it stands. No number on the way leaves its range: neither a term after its sign nor a
number of the result. -/
theorem Pseudo.formula_eq_iff_writes (text : String) :
    (∀ formula, Pseudo.formula text = .ok formula ↔ Formula.Writes text formula) ∧
      (Pseudo.formula text = .error (.invalidFormula text) ↔
        ¬∃ formula, Formula.Writes text formula) ∧
      (∀ formula, Formula.Writes text formula → formula.Fits) ∧
      ∀ piece term, Formula.Term.read piece = some term → Formula.InRange term.value := by
  have hok (formula : Formula) :
      Pseudo.formula text = .ok formula ↔ Formula.Writes text formula := by
    rw [formula_eq_ok_iff, Formula.parse?_eq_some_iff]
  refine ⟨hok, ?_, fun formula h => h.2.fits, fun piece term => Formula.Term.inRange_value_of_read⟩
  simp only [← hok]
  cases hparse : Formula.parse? text <;> simp [Pseudo.formula, hparse]

example : Formula.parse? " - 3N + 2 +n" = some (.linear (-2) 2) := by cbv

end SelectorPath

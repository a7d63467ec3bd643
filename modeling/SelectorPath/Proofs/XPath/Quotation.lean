import SelectorPath.Proofs.XPath.Evaluation

/-! Texts written as expressions. XPath has no escapes, so a string expression is a literal between
marks that it does not hold, or a `concat` of such literals. What such an expression is does not
depend on what follows it: no text starts with two of them. So the expression that is built for a
value ends where it was meant to end, whatever the value holds and whatever comes next. -/

namespace SelectorPath

theorem Text.dropWhile_eq_iff {p : Char → Bool} {cs rest : List Char} :
    cs.dropWhile p = rest ↔
      Stops p rest ∧ ∃ run : List Char, run.all p = true ∧ run ++ rest = cs := by
  constructor
  · rintro rfl
    exact ⟨stops_dropWhile p cs, cs.takeWhile p, all_takeWhile p cs, List.takeWhile_append_dropWhile⟩
  · rintro ⟨hstops, run, hrun, rfl⟩
    exact dropWhile_run hrun hstops

namespace XPath

open Text

/-! ### Literals and names among the lexemes -/

namespace Lexeme

theorem eq_literal_of_readLiteral {quote : Quote} {cs rest : List Char} {lexeme : Lexeme}
    (h : readLiteral quote cs = some (lexeme, rest)) :
    ∃ text, lexeme = literal quote text ∧ quote.char ∉ text ∧ text ++ quote.char :: rest = cs := by
  have hstops := stops_dropWhile (· != quote.char) cs
  have happend : cs.takeWhile (· != quote.char) ++ cs.dropWhile (· != quote.char) = cs :=
    List.takeWhile_append_dropWhile
  unfold readLiteral at h
  split at h
  · cases h
  · next c rest' hdrop =>
    cases h
    rw [hdrop, stops_cons, bne_eq_false_iff_eq] at hstops
    rw [hdrop, hstops] at happend
    refine ⟨_, rfl, fun hmem => ?_, happend⟩
    simpa using List.mem_takeWhile_imp hmem

theorem readSymbol_ne {c : Char} {cs rest : List Char} {lexeme : Lexeme}
    (h : readSymbol c cs = some (lexeme, rest)) :
    (∀ quote text, lexeme ≠ literal quote text) ∧ ∀ text, lexeme ≠ name text := by
  unfold readSymbol at h
  split at h <;> grind

theorem read_eq_literal_iff {c : Char} {cs rest text : List Char} {quote : Quote} :
    read c cs = some (literal quote text, rest) ↔
      quote.char ∉ text ∧ quote.enclose text ++ rest = c :: cs := by
  constructor
  · intro h
    unfold read at h
    split at h
    · next found =>
      obtain ⟨_, heq, free, rfl⟩ := eq_literal_of_readLiteral h
      cases heq
      rw [Quote.ofChar?_eq_some_iff.1 found]
      exact ⟨free, by simp [Quote.enclose]⟩
    · split at h
      · simp at h
      · split at h
        · simp at h
        · exact absurd rfl ((readSymbol_ne h).1 quote text)
  · rintro ⟨free, happend⟩
    rw [Quote.enclose, List.cons_append, List.append_assoc, List.singleton_append] at happend
    obtain ⟨rfl, rfl⟩ := List.cons.inj happend
    exact read_literal free rest

theorem read_eq_name_iff {c : Char} {cs rest text : List Char} :
    read c cs = some (name text, rest) ↔
      spellsName text = true ∧ Stops inName rest ∧ text ++ rest = c :: cs := by
  constructor
  · intro h
    unfold read at h
    split at h
    · obtain ⟨_, heq, _⟩ := eq_literal_of_readLiteral h
      cases heq
    · split at h
      · simp at h
      · split at h
        · next hc =>
          cases h
          refine ⟨by rw [spellsName, hc, all_takeWhile]; rfl, stops_dropWhile inName cs, ?_⟩
          rw [List.cons_append, List.takeWhile_append_dropWhile]
        · exact absurd rfl ((readSymbol_ne h).2 text)
  · rintro ⟨hname, hstops, happend⟩
    cases text with
    | nil => cases hname
    | cons d text =>
      obtain ⟨hd, htext⟩ := Bool.and_eq_true_iff.1 hname
      obtain ⟨rfl, rfl⟩ := List.cons.inj happend
      exact read_name hd htext hstops

end Lexeme

/-! ### The grammar of string expressions -/

namespace Expr

/-- A literal is a text between two marks of a kind that it does not hold. -/
inductive WritesLiteral : List Char → Expr → Prop
  | enclosed {quote : Quote} {text : List Char} (free : quote.char ∉ text) :
      WritesLiteral (quote.enclose text) (literal quote (String.ofList text))

/-- A literal may have blanks around it where it is an argument. -/
inductive WritesPiece : List Char → Expr → Prop
  | padded {before text after : List Char} {piece : Expr}
      (before_blank : before.all Char.isWhitespace = true) (writes : WritesLiteral text piece)
      (after_blank : after.all Char.isWhitespace = true) :
      WritesPiece (before ++ (text ++ after)) piece

/-- The arguments of a call, from after its opening parenthesis to its closing one. -/
inductive WritesPieces : List Char → List Expr → Prop
  | last {text : List Char} {piece : Expr} (writes : WritesPiece text piece) :
      WritesPieces (text ++ [')']) [piece]
  | more {text cs : List Char} {piece : Expr} {pieces : List Expr}
      (writes : WritesPiece text piece) (tail : WritesPieces cs pieces) :
      WritesPieces (text ++ ',' :: cs) (piece :: pieces)

/-- A `concat` of at least two literals. -/
inductive WritesConcat : List Char → Expr → Prop
  | call {blanks text : List Char} {pieces : List Expr}
      (blank : blanks.all Char.isWhitespace = true) (writes : WritesPieces text pieces)
      (several : 2 ≤ pieces.length) :
      WritesConcat (Function.concat.text.toList ++ (blanks ++ '(' :: text)) (call .concat pieces)

/-- The texts of string expressions. -/
def WritesText (text : List Char) (e : Expr) : Prop :=
  WritesLiteral text e ∨ WritesConcat text e

/-! ### Reading one string expression -/

def readLiteral : List Char → Option (Expr × List Char)
  | [] => none
  | c :: cs =>
    match Lexeme.read c cs with
    | some (.literal quote text, rest) => some (literal quote (String.ofList text), rest)
    | _ => none

theorem readLiteral_eq_some_iff {cs rest : List Char} {e : Expr} :
    readLiteral cs = some (e, rest) ↔ ∃ text, WritesLiteral text e ∧ text ++ rest = cs := by
  constructor
  · intro h
    unfold readLiteral at h
    split at h
    · cases h
    · split at h
      · next hread =>
        cases h
        obtain ⟨free, happend⟩ := Lexeme.read_eq_literal_iff.1 hread
        exact ⟨_, .enclosed free, happend⟩
      · cases h
  · rintro ⟨_, ⟨free⟩, rfl⟩
    rw [Quote.enclose, List.cons_append, readLiteral,
      Lexeme.read_eq_literal_iff.2 ⟨free, List.cons_append⟩]

/-- Reads a literal and the blanks around it. -/
def readPiece (cs : List Char) : Option (Expr × List Char) := do
  let (piece, rest) ← readLiteral (cs.dropWhile Char.isWhitespace)
  return (piece, rest.dropWhile Char.isWhitespace)

theorem WritesLiteral.ne_nil {text : List Char} {e : Expr} (h : WritesLiteral text e) :
    text ≠ [] := by
  cases h
  simp [Quote.enclose]

theorem WritesLiteral.stops {text : List Char} {e : Expr} (h : WritesLiteral text e)
    (rest : List Char) : Stops Char.isWhitespace (text ++ rest) := by
  obtain @⟨quote, _, _⟩ := h
  rw [Quote.enclose, List.cons_append, stops_cons]
  cases quote <;> rfl

theorem readPiece_eq_some_iff {cs rest : List Char} {piece : Expr} :
    readPiece cs = some (piece, rest) ↔
      Stops Char.isWhitespace rest ∧ ∃ text, WritesPiece text piece ∧ text ++ rest = cs := by
  constructor
  · intro h
    obtain ⟨⟨_, rest'⟩, hread, hrest⟩ := Option.bind_eq_some_iff.1 h
    cases hrest
    obtain ⟨text, hwrites, happend⟩ := readLiteral_eq_some_iff.1 hread
    obtain ⟨_, before, hbefore, rfl⟩ := dropWhile_eq_iff.1 happend.symm
    refine ⟨stops_dropWhile _ rest', _, .padded hbefore hwrites (all_takeWhile _ rest'), ?_⟩
    rw [List.append_assoc, List.append_assoc, List.takeWhile_append_dropWhile]
  · rintro ⟨hstops, _, @⟨before, text, after, _, hbefore, hwrites, hafter⟩, rfl⟩
    have hskip : (before ++ (text ++ after) ++ rest).dropWhile Char.isWhitespace =
        text ++ (after ++ rest) := by
      rw [List.append_assoc, List.append_assoc]
      exact dropWhile_run hbefore (hwrites.stops _)
    rw [readPiece, hskip, readLiteral_eq_some_iff.2 ⟨text, hwrites, rfl⟩]
    exact congrArg (fun rest => some (piece, rest)) (dropWhile_run hafter hstops)

theorem length_lt_of_readPiece {cs rest : List Char} {piece : Expr}
    (h : readPiece cs = some (piece, rest)) : rest.length < cs.length := by
  obtain ⟨_, _, hwrites, rfl⟩ := readPiece_eq_some_iff.1 h
  obtain ⟨_, hliteral, _⟩ := hwrites
  have hpos := List.length_pos_iff.2 hliteral.ne_nil
  simp only [List.length_append]
  omega

/-- Reads literals with commas between them, up to the closing parenthesis. -/
def readPieces (cs : List Char) : Option (List Expr × List Char) :=
  match h : readPiece cs with
  | some (piece, ')' :: rest) => some ([piece], rest)
  | some (piece, ',' :: rest) =>
    have := length_lt_of_readPiece h
    (readPieces rest).map fun (pieces, rest) => (piece :: pieces, rest)
  | _ => none
termination_by cs.length
decreasing_by exact Nat.lt_of_succ_lt this

theorem readPieces_of_close {cs rest : List Char} {piece : Expr}
    (h : readPiece cs = some (piece, ')' :: rest)) : readPieces cs = some ([piece], rest) := by
  rw [readPieces]
  split <;> grind

theorem readPieces_of_comma {cs rest : List Char} {piece : Expr}
    (h : readPiece cs = some (piece, ',' :: rest)) :
    readPieces cs = (readPieces rest).map fun (pieces, rest) => (piece :: pieces, rest) := by
  rw [readPieces]
  split <;> grind

theorem readPieces_eq_some_iff {cs rest : List Char} {pieces : List Expr} :
    readPieces cs = some (pieces, rest) ↔ ∃ text, WritesPieces text pieces ∧ text ++ rest = cs := by
  constructor
  · intro h
    fun_induction readPieces cs generalizing pieces with
    | case1 cs piece rest' hpiece =>
      cases h
      obtain ⟨_, text, hwrites, rfl⟩ := readPiece_eq_some_iff.1 hpiece
      exact ⟨text ++ [')'], .last hwrites, by simp⟩
    | case2 cs piece rest' hpiece _ ih =>
      obtain ⟨⟨pieces', _⟩, hpieces, heq⟩ := Option.map_eq_some_iff.1 h
      cases heq
      obtain ⟨_, text, hwrites, rfl⟩ := readPiece_eq_some_iff.1 hpiece
      obtain ⟨tail, htail, rfl⟩ := ih hpieces
      exact ⟨text ++ ',' :: tail, .more hwrites htail, by simp⟩
    | case3 => cases h
  · rintro ⟨text, hwrites, rfl⟩
    induction hwrites with
    | @last text piece hwrites =>
      rw [List.append_assoc, List.singleton_append]
      exact readPieces_of_close (readPiece_eq_some_iff.2 ⟨stops_cons.2 rfl, text, hwrites, rfl⟩)
    | @more text cs piece pieces hwrites _ ih =>
      rw [List.append_assoc, List.cons_append, readPieces_of_comma
        (readPiece_eq_some_iff.2 ⟨stops_cons.2 rfl, text, hwrites, rfl⟩), ih]
      rfl

theorem stops_inName_of_blank {blanks : List Char} (blank : blanks.all Char.isWhitespace = true)
    (rest : List Char) : Stops Lexeme.inName (blanks ++ '(' :: rest) := by
  cases blanks with
  | nil => exact stops_cons.2 rfl
  | cons c blanks =>
    have hc : c.isWhitespace = true := List.all_eq_true.1 blank c List.mem_cons_self
    rw [List.cons_append, stops_cons]
    by_contra hname
    rw [Lexeme.not_space_of_class (by decide) (Bool.eq_true_of_not_eq_false hname)] at hc
    cases hc

/-- Reads the name `concat` and the opening parenthesis after it. -/
def readOpening : List Char → Option (List Char)
  | [] => none
  | c :: cs =>
    match Lexeme.read c cs with
    | some (.name name, rest) =>
      match rest.dropWhile Char.isWhitespace with
      | '(' :: rest => if name = Function.concat.text.toList then some rest else none
      | _ => none
    | _ => none

theorem readOpening_eq_some_iff {cs rest : List Char} :
    readOpening cs = some rest ↔
      ∃ blanks : List Char, blanks.all Char.isWhitespace = true ∧
        Function.concat.text.toList ++ (blanks ++ '(' :: rest) = cs := by
  constructor
  · intro h
    unfold readOpening at h
    split at h
    · cases h
    · split at h
      · next hname =>
        split at h
        · next hopen =>
          obtain ⟨rfl, hrest⟩ := Option.ite_none_right_eq_some.1 h
          cases hrest
          obtain ⟨_, blanks, blank, rfl⟩ := dropWhile_eq_iff.1 hopen
          exact ⟨blanks, blank, (Lexeme.read_eq_name_iff.1 hname).2.2⟩
        · cases h
      · cases h
  · rintro ⟨blanks, blank, rfl⟩
    have hname : Lexeme.read 'c' ("oncat".toList ++ (blanks ++ '(' :: rest)) =
        some (.name Function.concat.text.toList, blanks ++ '(' :: rest) :=
      Lexeme.read_eq_name_iff.2 ⟨rfl, stops_inName_of_blank blank rest, rfl⟩
    have hopen : (blanks ++ '(' :: rest).dropWhile Char.isWhitespace = '(' :: rest :=
      dropWhile_run blank (stops_cons.2 rfl)
    change readOpening ('c' :: ("oncat".toList ++ (blanks ++ '(' :: rest))) = some rest
    simp only [readOpening, hname, hopen, if_true]

/-- Reads a `concat` of at least two literals. -/
def readConcat (cs : List Char) : Option (Expr × List Char) := do
  let rest ← readOpening cs
  let (pieces, rest) ← readPieces rest
  if 2 ≤ pieces.length then return (call .concat pieces, rest) else none

theorem readConcat_eq_some_iff {cs rest : List Char} {e : Expr} :
    readConcat cs = some (e, rest) ↔ ∃ text, WritesConcat text e ∧ text ++ rest = cs := by
  constructor
  · intro h
    obtain ⟨_, hopening, h⟩ := Option.bind_eq_some_iff.1 h
    obtain ⟨⟨pieces, _⟩, hpieces, h⟩ := Option.bind_eq_some_iff.1 h
    obtain ⟨several, heq⟩ := Option.ite_none_right_eq_some.1 h
    cases heq
    obtain ⟨text, hwrites, rfl⟩ := readPieces_eq_some_iff.1 hpieces
    obtain ⟨blanks, blank, rfl⟩ := readOpening_eq_some_iff.1 hopening
    exact ⟨_, .call blank hwrites several, by simp⟩
  · rintro ⟨_, @⟨blanks, text, pieces, blank, hwrites, several⟩, rfl⟩
    have hopening : readOpening (Function.concat.text.toList ++ (blanks ++ '(' :: text) ++ rest) =
        some (text ++ rest) := readOpening_eq_some_iff.2 ⟨blanks, blank, by simp⟩
    have hpieces : readPieces (text ++ rest) = some (pieces, rest) :=
      readPieces_eq_some_iff.2 ⟨text, hwrites, rfl⟩
    rw [readConcat, hopening]
    simp [hpieces, several]

/-- Reads one string expression from the start of a text. -/
def readText (cs : List Char) : Option (Expr × List Char) :=
  (readLiteral cs).or (readConcat cs)

/-- A call does not start with a quotation mark. -/
theorem WritesConcat.readLiteral_eq_none {text : List Char} {e : Expr} (h : WritesConcat text e)
    (rest : List Char) : readLiteral (text ++ rest) = none := by
  rw [Option.eq_none_iff_forall_ne_some]
  rintro ⟨_, _⟩ hread
  obtain ⟨_, @⟨quote, _, _⟩, happend⟩ := readLiteral_eq_some_iff.1 hread
  obtain @⟨_, _, _, _, _, _⟩ := h
  have hfirst : quote.char = 'c' := (List.cons.inj happend).1
  cases quote <;> cases hfirst

theorem readText_eq_some_iff {cs rest : List Char} {e : Expr} :
    readText cs = some (e, rest) ↔ ∃ text, WritesText text e ∧ text ++ rest = cs := by
  constructor
  · intro h
    rcases Option.or_eq_some_iff.1 h with hliteral | ⟨_, hconcat⟩
    · obtain ⟨text, hwrites, happend⟩ := readLiteral_eq_some_iff.1 hliteral
      exact ⟨text, .inl hwrites, happend⟩
    · obtain ⟨text, hwrites, happend⟩ := readConcat_eq_some_iff.1 hconcat
      exact ⟨text, .inr hwrites, happend⟩
  · rintro ⟨text, hwrites | hwrites, rfl⟩
    · rw [readText, readLiteral_eq_some_iff.2 ⟨text, hwrites, rfl⟩]
      rfl
    · rw [readText, hwrites.readLiteral_eq_none, Option.none_or]
      exact readConcat_eq_some_iff.2 ⟨text, hwrites, rfl⟩

/-! ### The expression for a value -/

theorem writesLiteral_render {quote : Quote} {text : String} (free : quote.char ∉ text.toList) :
    WritesLiteral (literal quote text).render.toList (literal quote text) := by
  have hwrites := WritesLiteral.enclosed free
  rw [String.ofList_toList] at hwrites
  rwa [render, String.toList_ofList]

theorem writesPieces_render {pieces : List Expr} (hne : pieces ≠ [])
    (h : ∀ piece ∈ pieces, WritesLiteral piece.render.toList piece) {blanks : List Char}
    (hblanks : blanks.all Char.isWhitespace = true) :
    WritesPieces (blanks ++ ((renderArguments pieces).toList ++ [')'])) pieces := by
  -- The space after a comma belongs to the next piece, so there may be blanks before the first one.
  induction pieces generalizing blanks with
  | nil => exact absurd rfl hne
  | cons piece pieces ih =>
    have hpiece : WritesPiece (blanks ++ (piece.render.toList ++ [])) piece :=
      .padded hblanks (h piece List.mem_cons_self) rfl
    rw [List.append_nil] at hpiece
    cases pieces with
    | nil =>
      rw [renderArguments, ← List.append_assoc]
      exact .last hpiece
    | cons next pieces =>
      have htail : WritesPieces ([' '] ++ ((renderArguments (next :: pieces)).toList ++ [')']))
          (next :: pieces) :=
        ih (by simp) (fun p hp => h p (List.mem_cons_of_mem piece hp)) rfl
      simpa [toList_renderArguments] using WritesPieces.more hpiece htail

theorem writesConcat_render {pieces : List Expr} (several : 2 ≤ pieces.length)
    (h : ∀ piece ∈ pieces, WritesLiteral piece.render.toList piece) :
    WritesConcat (call .concat pieces).render.toList (call .concat pieces) := by
  have hblanks : ([] : List Char).all Char.isWhitespace = true := rfl
  have hne : pieces ≠ [] := by
    rintro rfl
    cases several
  rw [toList_render_call]
  exact .call hblanks (writesPieces_render hne h hblanks) several

theorem writesText_ofString (value : String) :
    WritesText (ofString value).render.toList (ofString value) := by
  rcases ofString_cases value with ⟨quote, free, heq⟩ | ⟨pieces, several, hpieces, heq⟩
  · rw [heq]
    exact .inl (writesLiteral_render free)
  · rw [heq]
    refine .inr (writesConcat_render several fun piece hpiece => ?_)
    obtain ⟨quote, text, free, rfl⟩ := hpieces piece hpiece
    exact writesLiteral_render free

/-- The expression for a value is read back from before any text, with that text left over, and it
stands for the value. No other string expression starts there: none ends earlier, and none goes on
into what follows. -/
theorem readText_render_ofString (value : String) (rest : List Char) :
    let quoted := (ofString value).render.toList
    readText (quoted ++ rest) = some (ofString value, rest) ∧
    (∀ context, (ofString value).eval context = some (.string value)) ∧
    ∀ text e, WritesText text e ∧ text <+: quoted ++ rest ↔ text = quoted ∧ e = ofString value := by
  intro quoted
  have hwrites : WritesText quoted (ofString value) := writesText_ofString value
  have hread : readText (quoted ++ rest) = some (ofString value, rest) :=
    readText_eq_some_iff.2 ⟨quoted, hwrites, rfl⟩
  refine ⟨hread, fun context => eval_ofString context value, fun text e => ?_⟩
  constructor
  · rintro ⟨htext, after, happend⟩
    rw [readText_eq_some_iff.2 ⟨text, htext, happend⟩] at hread
    cases hread
    exact ⟨List.append_cancel_right happend, rfl⟩
  · rintro ⟨rfl, rfl⟩
    exact ⟨hwrites, List.prefix_append _ rest⟩

end Expr

end XPath

end SelectorPath

import SelectorPath.Proofs.Block

/-! Which texts are read as which tokens. A token ends where what follows cannot belong to it any
more, and this is all that reading it depends on: a token can be read exactly if it is spelled as it
should be and ends before the rest. So the tokens of a text stay what they are when another text is
put after it, if only the last of them ends there. -/

namespace SelectorPath

open Text

/-! ### Arguments -/

namespace Argument

theorem read_of_openAfter {depth : Nat} {cs : List Char} (h : openAfter depth cs ≠ none) :
    read depth cs = (⟨cs, false⟩, []) := by
  fun_induction openAfter depth cs with
  | case1 depth => rfl
  | case2 depth cs ih => simp [read, ih h, cons]
  | case3 cs => exact absurd rfl h
  | case4 cs depth ih => simp [read, ih h, cons]
  | case5 depth c cs hopen hclose ih => simp [read, ih h, cons]

theorem openAfter_of_unclosed {depth : Nat} {cs : List Char}
    (h : (read depth cs).1.closed = false) : openAfter depth cs ≠ none := by
  fun_induction read depth cs with
  | case1 depth => simp [openAfter]
  | case2 depth cs argument rest hread ih =>
    rw [hread] at ih
    exact ih h
  | case3 => cases h
  | case4 cs depth argument rest hread ih =>
    rw [hread] at ih
    exact ih h
  | case5 depth c cs hopen hclose argument rest hread ih =>
    rw [hread] at ih
    simpa [openAfter] using ih h

/-- An argument that is closed is balanced; in one that is not, no parenthesis closes its own. -/
def Readable (argument : Argument) : Prop :=
  match argument.closed with
  | true => Balanced argument.text
  | false => openAfter 0 argument.text ≠ none

theorem Readable.balanced {argument : Argument} (h : argument.Readable)
    (hclosed : argument.closed = true) : Balanced argument.text := by
  unfold Readable at h
  rwa [hclosed] at h

/-- What may come after an argument: anything if it is closed, and otherwise nothing. -/
def EndsBefore (argument : Argument) (rest : List Char) : Prop :=
  argument.closed = true ∨ rest = []

theorem readable_read (cs : List Char) :
    (read 0 cs).1.Readable ∧ (read 0 cs).1.EndsBefore (read 0 cs).2 := by
  unfold Readable EndsBefore
  cases hclosed : (read 0 cs).1.closed with
  | true => exact ⟨openAfter_of_closed hclosed, .inl rfl⟩
  | false =>
    have htext := text_of_unclosed hclosed
    have hspelling := spelling_append_read 0 cs
    refine ⟨htext.symm ▸ openAfter_of_unclosed hclosed, .inr ?_⟩
    simpa [spelling, hclosed, htext] using hspelling

theorem read_eq_iff {cs rest : List Char} {argument : Argument} :
    read 0 cs = (argument, rest) ↔
      argument.Readable ∧ argument.EndsBefore rest ∧ argument.spelling ++ rest = '(' :: cs := by
  constructor
  · intro h
    have hreadable := readable_read cs
    have hspelling := spelling_append_read 0 cs
    rw [h] at hreadable hspelling
    exact ⟨hreadable.1, hreadable.2, hspelling⟩
  · rintro ⟨hreadable, hends, hspelling⟩
    obtain ⟨text, closed⟩ := argument
    cases closed with
    | true =>
      obtain rfl : text ++ ')' :: rest = cs := by simpa [spelling] using hspelling
      exact read_append_of_openAfter hreadable rest
    | false =>
      obtain rfl : rest = [] := hends.resolve_left Bool.false_ne_true
      obtain rfl : text = cs := by simpa [spelling] using hspelling
      exact read_of_openAfter hreadable

end Argument

/-! ### Simple selectors -/

namespace SimpleSelector

theorem isWord_of_isPseudoLetter {c : Char} (h : isPseudoLetter c = true) : isWord c = true := by
  simp only [isPseudoLetter, isWord, Char.isAlphanum, Char.isAlpha, Bool.or_eq_true] at h ⊢
  tauto

/-- The characters with which a pseudo-class without an argument can go on. -/
def continuesPseudo (c : Char) : Bool :=
  isPseudoLetter c || c == '('

/-- The characters with which a name or a pseudo-class can go on. -/
def continues (c : Char) : Bool :=
  isWord c || c == '('

/-- A simple selector that is what is read from its text. -/
def Readable : SimpleSelector → Prop
  | universal => True
  | element name => isName name = true
  | shorthand _ value => value.all isWord = true
  | block spelling => spelling.Readable
  | pseudo name argument =>
    name.all isPseudoLetter = true ∧ ∀ a ∈ argument, a.Readable

/-- What may come after a simple selector. -/
def EndsBefore (rest : List Char) : SimpleSelector → Prop
  | element _ | shorthand _ _ => Stops isWord rest
  | pseudo _ none => Stops continuesPseudo rest
  | pseudo _ (some argument) => argument.EndsBefore rest
  | universal | block _ => True

/-- Every simple selector ends where neither a word nor an argument goes on, unless its argument is
left open. -/
theorem endsBefore_of_stops {selector : SimpleSelector} {rest : List Char}
    (h : Stops continues rest)
    (hclosed : ∀ name argument, selector = pseudo name (some argument) → argument.closed = true) :
    selector.EndsBefore rest := by
  cases selector with
  | universal | block => trivial
  | element | shorthand => exact h.mono fun c hc => by simp [continues, hc]
  | pseudo name argument =>
    cases argument with
    | some argument => exact .inl (hclosed name argument rfl)
    | none =>
      refine h.mono fun c hc => ?_
      rcases Bool.or_eq_true_iff.1 hc with hletter | hparenthesis
      · simp [continues, isWord_of_isPseudoLetter hletter]
      · simp [continues, hparenthesis]

theorem readable_readPseudo (cs : List Char) :
    (∃ name argument, (readPseudo cs).1 = pseudo name argument) ∧
      (readPseudo cs).1.Readable ∧ (readPseudo cs).1.EndsBefore (readPseudo cs).2 := by
  unfold readPseudo
  split
  · next inner hinner =>
    obtain ⟨hreadable, hends⟩ := Argument.readable_read inner
    refine ⟨⟨_, _, rfl⟩, ⟨all_takeWhile _ _, ?_⟩, hends⟩
    rintro argument ⟨⟩
    exact hreadable
  · next hnot =>
    refine ⟨⟨_, _, rfl⟩, ⟨all_takeWhile _ _, by simp⟩, ?_⟩
    intro c hc
    have hletter := stops_dropWhile isPseudoLetter cs c hc
    have hparenthesis : c ≠ '(' := by
      rintro rfl
      obtain ⟨inner, hinner⟩ := List.head?_eq_some_iff.1 hc
      exact hnot inner hinner
    simp [continuesPseudo, hletter, hparenthesis]

theorem readPseudo_eq_iff {cs rest : List Char} {selector : SimpleSelector} :
    readPseudo cs = (selector, rest) ↔
      (∃ name argument, selector = pseudo name argument) ∧ selector.Readable ∧
        selector.EndsBefore rest ∧ selector.text ++ rest = ':' :: cs := by
  constructor
  · intro h
    obtain ⟨hpseudo, hreadable, hends⟩ := readable_readPseudo cs
    obtain ⟨tail, htext, htail⟩ := exists_text_readPseudo cs
    rw [h] at hpseudo hreadable hends htext htail
    exact ⟨hpseudo, hreadable, hends, by rw [htext, List.cons_append, htail]⟩
  · rintro ⟨⟨name, argument, rfl⟩, ⟨hname, hargument⟩, hends, htext⟩
    cases argument with
    | none =>
      obtain rfl : name ++ rest = cs := by simpa [text] using htext
      have hstop : Stops isPseudoLetter rest :=
        Stops.mono hends fun c hc => by simp [continuesPseudo, hc]
      simp only [readPseudo, takeWhile_run hname hstop, dropWhile_run hname hstop]
      split
      · cases hends '(' rfl
      · rfl
    | some argument =>
      obtain rfl : name ++ (argument.spelling ++ rest) = cs := by simpa [text] using htext
      have hread : Argument.read 0 (argument.spelling ++ rest).tail = (argument, rest) :=
        Argument.read_eq_iff.2 ⟨hargument argument rfl, hends, rfl⟩
      have hstop : Stops isPseudoLetter (argument.spelling ++ rest) := stops_cons.2 (by decide)
      simp only [readPseudo, takeWhile_run hname hstop, dropWhile_run hname hstop]
      show (pseudo name (some (Argument.read 0 (argument.spelling ++ rest).tail).1),
        (Argument.read 0 (argument.spelling ++ rest).tail).2) = _
      rw [hread]

/-- Whether a character can start a simple selector. -/
def starts (c : Char) : Bool :=
  c == '#' || c == '.' || c.isAlpha || c == '*' || c == ':' || c == '['

end SimpleSelector

/-! ### Tokens -/

namespace Token

/-- A token that is what is read from its text. -/
def Readable : Token → Prop
  | gap spelling => spelling.Spelled ∧ spelling.text ≠ []
  | simple selector => selector.Readable
  | stray char => SimpleSelector.starts char = false ∧ Gap.starts char = false

/-- What may come after a token. -/
def EndsBefore (rest : List Char) : Token → Prop
  | gap spelling => spelling.EndsBefore rest
  | simple selector => selector.EndsBefore rest
  | stray _ => True

/-! What is read is decided by the first character. -/

theorem read_shorthand (kind : Shorthand) (cs : List Char) :
    read kind.symbol cs =
      .ok (simple (.shorthand kind (cs.takeWhile isWord)), cs.dropWhile isWord) := by
  cases kind <;> rfl

theorem read_element {c : Char} (h : c.isAlpha = true) (cs : List Char) :
    read c cs = .ok (simple (.element (c :: cs.takeWhile isWord)), cs.dropWhile isWord) := by
  have hsymbol : Shorthand.ofSymbol? c = none := by
    by_contra hsome
    obtain ⟨kind, hkind⟩ := Option.ne_none_iff_exists'.1 hsome
    rw [Shorthand.ofSymbol?_eq_some_iff.1 hkind] at h
    cases kind <;> exact absurd h (by decide)
  rw [read, hsymbol]
  simp only [h, if_true]

theorem read_colon (cs : List Char) :
    read ':' cs = .ok (simple (SimpleSelector.readPseudo cs).1, (SimpleSelector.readPseudo cs).2) :=
  rfl

theorem read_bracket (cs : List Char) :
    read '[' cs = (do
      let (block, rest) ← Block.read cs
      return (simple (.block block), rest)) :=
  rfl

theorem read_of_starts {c : Char} (h : Gap.starts c = true) (cs : List Char) :
    read c cs = .ok (.gap (Gap.read (c :: cs)).1, (Gap.read (c :: cs)).2) := by
  simp only [Gap.starts, isBlank, Bool.or_eq_true, beq_iff_eq] at h
  rcases h with ((((rfl | rfl) | rfl) | rfl) | rfl) | rfl <;> rfl

theorem read_stray {c : Char} (hsimple : SimpleSelector.starts c = false)
    (hgap : Gap.starts c = false) (cs : List Char) : read c cs = .ok (stray c, cs) := by
  simp only [SimpleSelector.starts, Bool.or_eq_false_iff, beq_eq_false_iff_ne] at hsimple
  obtain ⟨⟨⟨⟨⟨hhash, hdot⟩, halpha⟩, hstar⟩, hcolon⟩, hbracket⟩ := hsimple
  simp [read, Shorthand.ofSymbol?, hhash, hdot, halpha, hstar, hcolon, hbracket, hgap]

/-- The kinds of first characters. -/
theorem start_cases (c : Char) :
    (∃ kind : Shorthand, c = kind.symbol) ∨ c.isAlpha = true ∨ c = '*' ∨ c = ':' ∨ c = '[' ∨
      Gap.starts c = true ∨ SimpleSelector.starts c = false ∧ Gap.starts c = false := by
  by_cases hsimple : SimpleSelector.starts c = true
  · simp only [SimpleSelector.starts, Bool.or_eq_true, beq_iff_eq] at hsimple
    rcases hsimple with ((((hhash | hdot) | halpha) | hstar) | hcolon) | hbracket
    · exact .inl ⟨.hash, hhash⟩
    · exact .inl ⟨.dot, hdot⟩
    · exact .inr (.inl halpha)
    · exact .inr (.inr (.inl hstar))
    · exact .inr (.inr (.inr (.inl hcolon)))
    · exact .inr (.inr (.inr (.inr (.inl hbracket))))
  · by_cases hgap : Gap.starts c = true
    · exact .inr (.inr (.inr (.inr (.inr (.inl hgap)))))
    · exact .inr (.inr (.inr (.inr (.inr (.inr (by simpa using And.intro hsimple hgap))))))

theorem readable_of_read {c : Char} {cs rest : List Char} {token : Token}
    (h : read c cs = .ok (token, rest)) : token.Readable ∧ token.EndsBefore rest := by
  rcases start_cases c with ⟨kind, rfl⟩ | halpha | rfl | rfl | rfl | hgap | ⟨hsimple, hgap⟩
  · rw [read_shorthand] at h
    cases h
    exact ⟨all_takeWhile isWord cs, stops_dropWhile isWord cs⟩
  · rw [read_element halpha] at h
    cases h
    refine ⟨?_, stops_dropWhile isWord cs⟩
    simp only [Readable, SimpleSelector.Readable, isName, halpha, all_takeWhile, Bool.and_self]
  · cases h
    exact ⟨trivial, trivial⟩
  · rw [read_colon] at h
    cases h
    exact (SimpleSelector.readable_readPseudo cs).2
  · rw [read_bracket] at h
    cases hread : Block.read cs with
    | error halt =>
      rw [hread] at h
      cases h
    | ok pair =>
      rw [hread] at h
      cases h
      exact ⟨Block.readable_of_read hread, trivial⟩
  · rw [read_of_starts hgap] at h
    cases h
    obtain ⟨hspelled, hends⟩ := Gap.spelled_read (c :: cs)
    obtain ⟨tail, htail, _⟩ : ∃ tail, (Gap.read (c :: cs)).1.text = c :: tail ∧ _ :=
      Gap.exists_text_read hgap
    exact ⟨⟨hspelled, by simp [htail]⟩, hends⟩
  · rw [read_stray hsimple hgap] at h
    cases h
    exact ⟨⟨hsimple, hgap⟩, trivial⟩

theorem Readable.read_eq {c : Char} {cs rest : List Char} {token : Token} (h : token.Readable)
    (hends : token.EndsBefore rest) (htext : token.text ++ rest = c :: cs) :
    read c cs = .ok (token, rest) := by
  cases token with
  | gap spelling =>
    obtain ⟨hspelled, hne⟩ := h
    obtain ⟨d, ds, hd, hstarts⟩ := Gap.exists_text_cons hspelled hne
    have hread : Gap.read (c :: cs) = (spelling, rest) :=
      Gap.read_eq_iff.2 ⟨hspelled, hends, htext⟩
    obtain rfl : d = c := by
      simp only [text, hd, List.cons_append] at htext
      exact (List.cons.inj htext).1
    rw [read_of_starts hstarts, hread]
  | stray char =>
    obtain ⟨rfl, rfl⟩ : char = c ∧ rest = cs := List.cons.inj htext
    exact read_stray h.1 h.2 rest
  | simple selector =>
    cases selector with
    | universal =>
      obtain ⟨rfl, rfl⟩ : '*' = c ∧ rest = cs := List.cons.inj htext
      rfl
    | shorthand kind value =>
      obtain ⟨rfl, rfl⟩ : kind.symbol = c ∧ value ++ rest = cs := List.cons.inj htext
      rw [read_shorthand, takeWhile_run h hends, dropWhile_run h hends]
    | element name =>
      cases name with
      | nil => cases h
      | cons d ds =>
        obtain ⟨rfl, rfl⟩ : d = c ∧ ds ++ rest = cs := List.cons.inj htext
        obtain ⟨halpha, hword⟩ := Bool.and_eq_true_iff.1 h
        rw [read_element halpha, takeWhile_run hword hends, dropWhile_run hword hends]
    | block spelling =>
      obtain ⟨rfl, rfl⟩ : '[' = c ∧ spelling.inner ++ rest = cs := List.cons.inj htext
      rw [read_bracket, Block.Readable.read_append h rest]
      rfl
    | pseudo name argument =>
      obtain rfl : c = ':' := by cases argument <;> exact (List.cons.inj htext).1.symm
      rw [read_colon, SimpleSelector.readPseudo_eq_iff.2 ⟨⟨name, argument, rfl⟩, h, hends, htext⟩]

/-- A token can be read exactly if it is spelled as it should be and ends before the rest. -/
theorem read_eq_ok_iff {c : Char} {cs rest : List Char} {token : Token} :
    read c cs = .ok (token, rest) ↔
      token.Readable ∧ token.EndsBefore rest ∧ token.text ++ rest = c :: cs := by
  constructor
  · intro h
    obtain ⟨hreadable, hends⟩ := readable_of_read h
    exact ⟨hreadable, hends, text_append_of_read h⟩
  · rintro ⟨hreadable, hends, htext⟩
    exact hreadable.read_eq hends htext

/-- Only a block can be malformed. -/
theorem read_eq_error_iff {c : Char} {cs : List Char} {halt : Halt} :
    read c cs = .error halt ↔ c = '[' ∧ Block.read cs = .error halt := by
  constructor
  · intro h
    rcases start_cases c with ⟨kind, rfl⟩ | halpha | rfl | rfl | rfl | hgap | ⟨hsimple, hgap⟩
    · rw [read_shorthand] at h
      cases h
    · rw [read_element halpha] at h
      cases h
    · cases h
    · cases h
    · refine ⟨rfl, ?_⟩
      rw [read_bracket] at h
      cases hread : Block.read cs with
      | error halt' =>
        rw [hread] at h
        cases h
        rfl
      | ok pair =>
        rw [hread] at h
        cases h
    · rw [read_of_starts hgap] at h
      cases h
    · rw [read_stray hsimple hgap] at h
      cases h
  · rintro ⟨rfl, h⟩
    rw [read_bracket, h]
    rfl

theorem EndsBefore.append {token : Token} {rest : List Char} (h : token.EndsBefore rest)
    (hne : rest ≠ []) (ds : List Char) : token.EndsBefore (rest ++ ds) := by
  cases token with
  | stray char => trivial
  | gap spelling =>
    obtain ⟨before, after⟩ := spelling
    cases after <;> exact Stops.append h hne ds
  | simple selector =>
    cases selector with
    | universal | block => trivial
    | element | shorthand => exact Stops.append h hne ds
    | pseudo name argument =>
      cases argument with
      | none => exact Stops.append h hne ds
      | some argument => exact .inl (Or.resolve_right h hne)

/-- A text after the rest does not change a token that ends there. -/
theorem read_append {c : Char} {cs rest : List Char} {token : Token}
    (h : read c cs = .ok (token, rest)) {ds : List Char} (hends : token.EndsBefore (rest ++ ds)) :
    read c (cs ++ ds) = .ok (token, rest ++ ds) := by
  obtain ⟨hreadable, _, htext⟩ := read_eq_ok_iff.1 h
  refine read_eq_ok_iff.2 ⟨hreadable, hends, ?_⟩
  rw [← List.append_assoc, htext, List.cons_append]

end Token

/-! ### All tokens of a text -/

namespace Tokens

@[simp] theorem read_nil : read [] = ⟨[], none⟩ := by
  rw [read]

theorem read_of_ok {c : Char} {cs rest : List Char} {token : Token}
    (h : Token.read c cs = .ok (token, rest)) : read (c :: cs) = (read rest).cons token := by
  rw [read]
  split
  · next h' => rw [h] at h'; cases h'
  · next h' => rw [h] at h'; cases h'; rfl

theorem read_of_error {c : Char} {cs : List Char} {halt : Halt}
    (h : Token.read c cs = .error halt) : read (c :: cs) = ⟨[], some halt⟩ := by
  rw [read]
  split
  · next h' => rw [h] at h'; cases h'; rfl
  · next h' => rw [h] at h'; cases h'

/-- What holds of every token that can be read holds of all tokens of a text. -/
theorem forall_mem_read {P : Token → Prop}
    (step : ∀ {c cs rest token}, Token.read c cs = .ok (token, rest) → P token) (cs : List Char) :
    ∀ token ∈ (read cs).list, P token := by
  fun_induction read cs with
  | case1 => simp
  | case2 => simp
  | case3 c cs token rest h _ ih =>
    intro token' hmem
    rcases List.mem_cons.1 hmem with rfl | hmem
    · exact step h
    · exact ih token' hmem

/-- The texts of the tokens put together are the text that was read. -/
theorem flatMap_text_read {cs : List Char} (h : (read cs).halt = none) :
    (read cs).list.flatMap Token.text = cs := by
  fun_induction read cs with
  | case1 => rfl
  | case2 => cases h
  | case3 c cs token rest hread _ ih =>
    have := ih h
    simp only [cons, List.flatMap_cons]
    rw [this, Token.text_append_of_read hread]

theorem list_ne_nil {cs : List Char} (h : (read cs).halt = none) (hne : cs ≠ []) :
    (read cs).list ≠ [] := by
  intro hnil
  have htext := flatMap_text_read h
  rw [hnil] at htext
  exact hne htext.symm

/-- The tokens of a text are followed by those of a text after it, if the last of them ends
there. -/
theorem read_append {cs ds : List Char} (h : (read cs).halt = none)
    (hlast : ∀ token ∈ (read cs).list.getLast?, token.EndsBefore ds) :
    read (cs ++ ds) = ⟨(read cs).list ++ (read ds).list, (read ds).halt⟩ := by
  fun_induction read cs with
  | case1 => rfl
  | case2 c cs halt hread => cases h
  | case3 c cs token rest hread _ ih =>
    have hends := (Token.read_eq_ok_iff.1 hread).2.1
    by_cases hrest : rest = []
    · -- The token is the last one, so it is up to what follows.
      subst hrest
      have htoken : token.EndsBefore ds := hlast token (by simp [cons])
      rw [List.cons_append, read_of_ok (Token.read_append hread htoken)]
      simp [cons]
    · have hlist := list_ne_nil h hrest
      have hread' := ih h fun last hmem => hlast last (by
        rw [cons, List.getLast?_cons, Option.mem_def.1 hmem]
        rfl)
      rw [List.cons_append, read_of_ok (Token.read_append hread (hends.append hrest ds)), hread']
      rfl

theorem rest_suffix_of_read {cs : List Char} {halt : Halt} (h : (read cs).halt = some halt) :
    halt.rest <:+ cs := by
  fun_induction read cs with
  | case1 => cases h
  | case2 c cs halt' hread =>
    obtain rfl := Option.some.inj h
    have hblock := (Token.read_eq_error_iff.1 hread).2
    exact (Block.rest_suffix_of_read hblock).trans (List.suffix_cons c cs)
  | case3 c cs token rest hread _ ih =>
    exact (ih h).trans ⟨token.text, Token.text_append_of_read hread⟩

end Tokens

end SelectorPath

import SelectorPath.Proofs.Token

/-! How a text is cut into tokens. Each token is spelled as it should be and goes on as far as it
can; this leaves only one way to cut a text, and it is the one in which the text is read. Where a
text cannot be cut to its end, it can be cut up to the bracket of a block that is malformed. -/

namespace SelectorPath

open Text

/-- A text that does not start with a class does not when it is cut short. -/
theorem Text.Stops.of_append {p : Char → Bool} {cs ds : List Char} (h : Stops p (cs ++ ds)) :
    Stops p cs := by
  cases cs with
  | nil => exact stops_nil p
  | cons c cs => exact h

/-- A block does not become malformed when the end of what follows it is cut off. -/
theorem Block.exists_read_of_append {cs rest : List Char} {c : Char} {block : Block}
    (h : read (cs ++ [c]) = .ok (block, rest)) (hc : c ≠ ']') :
    ∃ rest', read cs = .ok (block, rest') := by
  obtain ⟨hreadable, happend⟩ := read_eq_ok_iff.1 h
  rcases List.eq_nil_or_concat rest with rfl | ⟨rest', last, rfl⟩
  · rw [List.append_nil, inner] at happend
    exact absurd (List.append_singleton_inj.1 happend).2.symm hc
  · rw [List.concat_eq_append, ← List.append_assoc] at happend
    exact ⟨rest', read_eq_ok_iff.2 ⟨hreadable, (List.append_singleton_inj.1 happend).1⟩⟩

namespace Token

theorem Readable.text_ne_nil {token : Token} (h : token.Readable) : token.text ≠ [] := by
  cases token with
  | gap spelling => exact h.2
  | stray char => exact List.cons_ne_nil _ _
  | simple selector =>
    cases selector with
    | universal | shorthand | block => exact List.cons_ne_nil _ _
    | pseudo name argument => cases argument <;> exact List.cons_ne_nil _ _
    | element name =>
      rintro rfl
      cases h

/-- A token that ends before a text also ends before the start of it. -/
theorem EndsBefore.of_append {token : Token} {rest ds : List Char}
    (h : token.EndsBefore (rest ++ ds)) : token.EndsBefore rest := by
  cases token with
  | stray char => trivial
  | gap spelling =>
    obtain ⟨before, after⟩ := spelling
    cases after <;> exact Stops.of_append h
  | simple selector =>
    cases selector with
    | universal | block => trivial
    | element | shorthand => exact Stops.of_append h
    | pseudo name argument =>
      cases argument with
      | none => exact Stops.of_append h
      | some argument => exact Or.imp_right (fun hnil => (List.append_eq_nil_iff.1 hnil).1) h

end Token

namespace Tokens

/-- The tokens into which a text can be cut up to `rest`. -/
inductive Cuts (rest : List Char) : List Token → List Char → Prop
  | nil : Cuts rest [] rest
  | cons {token : Token} {tokens : List Token} {cs : List Char} (readable : token.Readable)
      (ends : token.EndsBefore cs) (tail : Cuts rest tokens cs) :
      Cuts rest (token :: tokens) (token.text ++ cs)

namespace Cuts

variable {rest cs : List Char} {tokens : List Token}

theorem text_append (h : Cuts rest tokens cs) : tokens.flatMap Token.text ++ rest = cs := by
  induction h with
  | nil => rfl
  | cons _ _ _ ih => rw [List.flatMap_cons, List.append_assoc, ih]

theorem flatMap_text (h : Cuts [] tokens cs) : tokens.flatMap Token.text = cs := by
  rw [← h.text_append, List.append_nil]

theorem readable (h : Cuts rest tokens cs) : ∀ token ∈ tokens, token.Readable := by
  induction h with
  | nil => exact fun _ h => absurd h List.not_mem_nil
  | cons readable _ _ ih => exact List.forall_mem_cons.2 ⟨readable, ih⟩

/-- A gap can stand before anything that does not start as a gap does. -/
theorem gap {gap : Gap} (hspelled : gap.Spelled) (hne : gap.text ≠ [])
    (hstops : Stops Gap.starts cs) (h : Cuts rest tokens cs) :
    Cuts rest (.gap gap :: tokens) (gap.text ++ cs) :=
  have ends : (Token.gap gap).EndsBefore cs := gap.endsBefore_of_stops hstops
  .cons ⟨hspelled, hne⟩ ends h

theorem append {others : List Token} {mid : List Char} (h : Cuts mid tokens cs)
    (hothers : Cuts rest others mid) : Cuts rest (tokens ++ others) cs := by
  induction h with
  | nil => exact hothers
  | cons readable ends _ ih => exact .cons readable ends ih

/-- Without what follows them, the tokens still cut their own text. -/
theorem alone (h : Cuts rest tokens cs) : Cuts [] tokens (tokens.flatMap Token.text) := by
  induction h with
  | nil => exact .nil
  | cons readable ends tail ih =>
    rw [← tail.text_append] at ends
    exact .cons readable ends.of_append ih

theorem read_eq (h : Cuts rest tokens cs) :
    read cs = ⟨tokens ++ (read rest).list, (read rest).halt⟩ := by
  induction h with
  | nil => rfl
  | @cons token tokens cs readable ends _ ih =>
    obtain ⟨c, tail, htext⟩ := List.exists_cons_of_ne_nil readable.text_ne_nil
    have hread : Token.read c (tail ++ cs) = .ok (token, cs) :=
      Token.read_eq_ok_iff.2 ⟨readable, ends, by rw [htext, List.cons_append]⟩
    rw [htext, List.cons_append, read_of_ok hread, ih]
    rfl

end Cuts

/-- A text is read to its end exactly if it can be cut into tokens, and the tokens are these. -/
theorem read_eq_iff_cuts {cs : List Char} {tokens : List Token} :
    read cs = ⟨tokens, none⟩ ↔ Cuts [] tokens cs := by
  constructor
  · intro h
    fun_induction read cs generalizing tokens with
    | case1 =>
      cases h
      exact .nil
    | case2 => cases h
    | case3 c cs token rest hread _ ih =>
      obtain ⟨hreadable, hends, htext⟩ := Token.read_eq_ok_iff.1 hread
      have hhalt : (read rest).halt = none := congrArg halt h
      obtain rfl : token :: (read rest).list = tokens := congrArg list h
      rw [← htext]
      exact .cons hreadable hends (ih (by rw [← hhalt]))
  · intro h
    rw [h.read_eq, read_nil, List.append_nil]

theorem cuts_read {cs : List Char} (h : (read cs).halt = none) : Cuts [] (read cs).list cs :=
  read_eq_iff_cuts.1 (by rw [← h])

/-! ### Malformed blocks -/

/-- Where reading halts, the tokens read so far cut the text up to the bracket of a block. -/
theorem exists_cuts_of_halt {cs : List Char} {halt : Halt} (h : (read cs).halt = some halt) :
    ∃ after, Cuts ('[' :: after) (read cs).list cs ∧ Block.read after = .error halt := by
  fun_induction read cs with
  | case1 => cases h
  | case2 c cs halt' hread =>
    obtain rfl := Option.some.inj h
    obtain ⟨rfl, hblock⟩ := Token.read_eq_error_iff.1 hread
    exact ⟨cs, .nil, hblock⟩
  | case3 c cs token rest hread _ ih =>
    obtain ⟨hreadable, hends, htext⟩ := Token.read_eq_ok_iff.1 hread
    obtain ⟨after, hcuts, hblock⟩ := ih h
    rw [← htext]
    exact ⟨after, .cons hreadable hends hcuts, hblock⟩

/-- Of all characters, only a closing bracket can mend a text at whose end it is put. -/
theorem halt_read_of_append {cs : List Char} {c : Char} (hc : c ≠ ']')
    (h : (read (cs ++ [c])).halt = none) : (read cs).halt = none := by
  fun_induction read cs with
  | case1 => rfl
  | case2 d cs halt hread =>
    obtain ⟨rfl, hblock⟩ := Token.read_eq_error_iff.1 hread
    cases hwhole : Block.read (cs ++ [c]) with
    | error halt' =>
      rw [List.cons_append, read_of_error (Token.read_eq_error_iff.2 ⟨rfl, hwhole⟩)] at h
      cases h
    | ok found =>
      obtain ⟨rest', hcut⟩ := Block.exists_read_of_append hwhole hc
      rw [hblock] at hcut
      cases hcut
  | case3 d cs token rest hread _ ih =>
    by_cases hrest : rest = []
    · subst hrest
      exact congrArg halt read_nil
    · have hends := (Token.read_eq_ok_iff.1 hread).2.1.append hrest [c]
      rw [List.cons_append, read_of_ok (Token.read_append hread hends)] at h
      exact ih h

end Tokens

end SelectorPath

import SelectorPath.Proofs.Console
import SelectorPath.Proofs.Token.Cut
import SelectorPath.Proofs.Selector
import SelectorPath.Text.Decimal

/-! The oddities of a selector that can be read. There is one for each stray character, at its
offset, and one for an argument that is not closed, which then takes the rest of the text. They are
all about different places, so a console that remembers nothing shows every one of them, also if its
log empties itself on the way. -/

namespace SelectorPath

open Text

/-! ### Places -/

theorem Text.byteSize_pos {cs : List Char} (h : cs ≠ []) : 0 < byteSize cs := by
  obtain ⟨c, cs, rfl⟩ := List.exists_cons_of_ne_nil h
  have := c.utf8Size_pos
  rw [byteSize_cons]
  omega

namespace Tokens

/-- Each token with the offset at which it starts; the first starts at `offset`. -/
def placed (offset : Nat) : List Token → List (Token × Nat)
  | [] => []
  | token :: tokens => (token, offset) :: placed (offset + byteSize token.text) tokens

theorem placed_append (offset : Nat) (tokens others : List Token) :
    placed offset (tokens ++ others) =
      placed offset tokens ++ placed (offset + byteSize (tokens.flatMap Token.text)) others := by
  induction tokens generalizing offset with
  | nil => rfl
  | cons token tokens ih =>
    rw [List.cons_append, placed, ih, placed, List.cons_append, List.flatMap_cons, byteSize_append,
      Nat.add_assoc]

theorem mem_placed_iff {offset place : Nat} {token : Token} {tokens : List Token} :
    (token, place) ∈ placed offset tokens ↔
      ∃ before after, tokens = before ++ token :: after ∧
        place = offset + byteSize (before.flatMap Token.text) := by
  constructor
  · intro h
    induction tokens generalizing offset with
    | nil => cases h
    | cons first tokens ih =>
      rcases List.mem_cons.1 h with h | h
      · cases h
        exact ⟨[], tokens, rfl, rfl⟩
      · obtain ⟨before, after, rfl, rfl⟩ := ih h
        refine ⟨first :: before, after, rfl, ?_⟩
        rw [List.flatMap_cons, byteSize_append, Nat.add_assoc]
  · rintro ⟨before, after, rfl, rfl⟩
    rw [placed_append, placed]
    simp

theorem pairwise_placed {tokens : List Token} (h : ∀ token ∈ tokens, token.Readable)
    (offset : Nat) : (placed offset tokens).Pairwise (·.2 < ·.2) := by
  induction tokens generalizing offset with
  | nil => exact .nil
  | cons token tokens ih =>
    obtain ⟨htoken, htokens⟩ := List.forall_mem_cons.1 h
    refine List.pairwise_cons.2 ⟨fun other hother => ?_, ih htokens _⟩
    obtain ⟨_, _, _, hplace⟩ := mem_placed_iff.1 hother
    have hpos := byteSize_pos htoken.text_ne_nil
    omega

end Tokens

/-! ### Oddities of tokens -/

namespace Token

def stray? : Token → Option Char
  | stray char => some char
  | _ => none

/-- If there is an argument, it is closed. -/
def Closed : Token → Prop
  | simple (.pseudo _ (some argument)) => argument.closed = true
  | _ => True

theorem Closed.oddity?_eq {token : Token} (h : token.Closed) (offset : Nat) :
    Tokens.oddity? offset token = token.stray?.map (.stray · offset) := by
  cases token with
  | gap | stray => rfl
  | simple selector =>
    cases selector with
    | universal | element | shorthand | block => rfl
    | pseudo name argument =>
      cases argument with
      | none => rfl
      | some argument => exact if_pos h

theorem exists_unclosed {token : Token} (h : ¬token.Closed) :
    ∃ name argument, token = simple (.pseudo name (some ⟨argument, false⟩)) := by
  cases token with
  | gap | stray => exact absurd trivial h
  | simple selector =>
    cases selector with
    | universal | element | shorthand | block => exact absurd trivial h
    | pseudo name argument =>
      cases argument with
      | none => exact absurd trivial h
      | some argument =>
        obtain ⟨text, closed⟩ := argument
        obtain rfl : closed = false := Bool.eq_false_iff.2 h
        exact ⟨name, text, rfl⟩

end Token

namespace Tokens

/-- The stray characters among tokens, each with its offset. -/
def strays (offset : Nat) (tokens : List Token) : List (Char × Nat) :=
  (placed offset tokens).filterMap fun (token, place) => token.stray?.map (·, place)

theorem mem_strays_iff {offset place : Nat} {char : Char} {tokens : List Token} :
    (char, place) ∈ strays offset tokens ↔
      ∃ before after, tokens = before ++ .stray char :: after ∧
        place = offset + byteSize (before.flatMap Token.text) := by
  rw [strays, List.mem_filterMap, ← mem_placed_iff]
  constructor
  · rintro ⟨⟨token, place'⟩, hmem, hstray⟩
    cases token with
    | gap | simple => cases hstray
    | stray char' =>
      cases hstray
      exact hmem
  · intro h
    exact ⟨_, h, rfl⟩

theorem pairwise_strays {tokens : List Token} (h : ∀ token ∈ tokens, token.Readable)
    (offset : Nat) : (strays offset tokens).Pairwise (·.2 < ·.2) := by
  refine (pairwise_placed h offset).filterMap _ ?_
  rintro ⟨token, place⟩ ⟨token', place'⟩ hlt stray hstray stray' hstray'
  obtain ⟨_, _, rfl⟩ := Option.map_eq_some_iff.1 hstray
  obtain ⟨_, _, rfl⟩ := Option.map_eq_some_iff.1 hstray'
  exact hlt

theorem oddities_append (offset : Nat) (tokens others : List Token) :
    oddities offset (tokens ++ others) = oddities offset tokens ++
      oddities (offset + byteSize (tokens.flatMap Token.text)) others := by
  induction tokens generalizing offset with
  | nil => rfl
  | cons token tokens ih =>
    rw [List.cons_append, oddities, ih, oddities, List.append_assoc, List.flatMap_cons,
      byteSize_append, Nat.add_assoc]

/-- Where all arguments are closed, only stray characters are odd. -/
theorem oddities_of_closed {tokens : List Token} (h : ∀ token ∈ tokens, token.Closed)
    (offset : Nat) :
    oddities offset tokens = (strays offset tokens).map fun (char, place) => .stray char place := by
  induction tokens generalizing offset with
  | nil => rfl
  | cons token tokens ih =>
    obtain ⟨htoken, htokens⟩ := List.forall_mem_cons.1 h
    rw [oddities, ih htokens, htoken.oddity?_eq, strays, strays, placed, List.filterMap_cons]
    cases hstray : token.stray? <;> simp [hstray]

/-- An argument that is not closed is the end of the text. -/
theorem Cuts.closed_or_last {tokens : List Token} {cs : List Char} (h : Cuts [] tokens cs) :
    (∀ token ∈ tokens, token.Closed) ∨
      ∃ before name argument, tokens = before ++ [.simple (.pseudo name (some ⟨argument, false⟩))] ∧
        ∀ token ∈ before, token.Closed := by
  induction h with
  | nil => exact .inl fun _ h => absurd h List.not_mem_nil
  | @cons token tokens cs readable ends tail ih =>
    by_cases hclosed : token.Closed
    · rcases ih with hall | ⟨before, name, argument, rfl, hbefore⟩
      · exact .inl (List.forall_mem_cons.2 ⟨hclosed, hall⟩)
      · exact .inr ⟨token :: before, name, argument, rfl,
          List.forall_mem_cons.2 ⟨hclosed, hbefore⟩⟩
    · obtain ⟨name, argument, rfl⟩ := Token.exists_unclosed hclosed
      obtain rfl : cs = [] := Or.resolve_left ends Bool.false_ne_true
      have htokens := tail.read_eq
      rw [read_nil, List.append_nil] at htokens
      obtain rfl : [] = tokens := congrArg list htokens
      exact .inr ⟨[], name, argument, rfl, by simp⟩

/-- What is odd about a text that is cut into tokens: its stray characters, and the name of a
pseudo-class whose argument is not closed, each with the offset that is noted. -/
structure Noted (cs : List Char) (tokens : List Token) (strays : List (Char × Nat))
    (unclosed : Option (List Char × Nat)) : Prop where
  /-- Each stray character is noted at the place where it stands. -/
  mem_strays_iff : ∀ char offset, (char, offset) ∈ strays ↔
    ∃ before after, tokens = before ++ .stray char :: after ∧
      offset = byteSize (before.flatMap Token.text)
  /-- They are noted in order, and none of them twice. -/
  increasing : strays.Pairwise (·.2 < ·.2)
  stray_at : ∀ char offset, (char, offset) ∈ strays →
    SimpleSelector.starts char = false ∧ Gap.starts char = false ∧
      ∃ before after, cs = before ++ char :: after ∧ offset = byteSize before
  unclosed_eq_none_iff : unclosed = none ↔
    ∀ name argument, .simple (.pseudo name (some argument)) ∈ tokens → argument.closed = true
  /-- An argument that is not closed is the end of the text, and is noted at its start. -/
  unclosed_last : ∀ name offset, unclosed = some (name, offset) →
    ∃ before argument, tokens = before ++ [.simple (.pseudo name (some ⟨argument, false⟩))] ∧
      cs = before.flatMap Token.text ++ ':' :: name ++ '(' :: argument ∧
      openAfter 0 argument ≠ none ∧
      offset = byteSize (before.flatMap Token.text ++ ':' :: name ++ ['('])

/-- The oddities that stray characters and an argument make. -/
def notes (strays : List (Char × Nat)) (unclosed : Option (List Char × Nat)) : List Oddity :=
  strays.map (fun (char, offset) => .stray char offset) ++
    unclosed.toList.map fun (name, offset) => .unclosedArgument (String.ofList name) offset

theorem forall_closed_iff {tokens : List Token} :
    (∀ token ∈ tokens, token.Closed) ↔
      ∀ name argument, .simple (.pseudo name (some argument)) ∈ tokens →
        argument.closed = true := by
  constructor
  · intro h name argument hmem
    exact h _ hmem
  · intro h token hmem
    by_contra hopen
    obtain ⟨name, argument, rfl⟩ := Token.exists_unclosed hopen
    cases h name _ hmem

namespace Cuts

variable {tokens : List Token} {cs : List Char} (h : Cuts [] tokens cs)
include h

theorem stray_at {char : Char} {offset : Nat} (hmem : (char, offset) ∈ strays 0 tokens) :
    SimpleSelector.starts char = false ∧ Gap.starts char = false ∧
      ∃ before after, cs = before ++ char :: after ∧ offset = byteSize before := by
  obtain ⟨before, after, rfl, rfl⟩ := mem_strays_iff.1 hmem
  obtain ⟨hsimple, hgap⟩ : (Token.stray char).Readable := h.readable _ (by simp)
  refine ⟨hsimple, hgap, before.flatMap Token.text, after.flatMap Token.text, ?_, Nat.zero_add _⟩
  rw [← h.flatMap_text, List.flatMap_append, List.flatMap_cons]
  rfl

theorem exists_noted :
    ∃ unclosed, Noted cs tokens (strays 0 tokens) unclosed ∧
      oddities 0 tokens = notes (strays 0 tokens) unclosed := by
  have hmem (char : Char) (offset : Nat) : (char, offset) ∈ strays 0 tokens ↔
      ∃ before after, tokens = before ++ .stray char :: after ∧
        offset = byteSize (before.flatMap Token.text) := by
    simp only [mem_strays_iff, Nat.zero_add]
  have hincreasing := pairwise_strays h.readable 0
  rcases h.closed_or_last with hclosed | ⟨before, name, argument, htokens, hbefore⟩
  · refine ⟨none, ⟨hmem, hincreasing, fun _ _ => h.stray_at, ?_, by simp⟩, ?_⟩
    · exact iff_of_true rfl (forall_closed_iff.1 hclosed)
    · rw [oddities_of_closed hclosed, notes, Option.toList_none, List.map_nil, List.append_nil]
  · have hlast : .simple (.pseudo name (some ⟨argument, false⟩)) ∈ tokens := by simp [htokens]
    refine ⟨some (name, byteSize (before.flatMap Token.text ++ ':' :: name ++ ['('])),
      ⟨hmem, hincreasing, fun _ _ => h.stray_at, ?_, ?_⟩, ?_⟩
    · refine iff_of_false (Option.some_ne_none _) fun hclosed => ?_
      cases hclosed name _ hlast
    · rintro name' offset ⟨⟩
      have hreadable : (Token.simple (.pseudo name (some ⟨argument, false⟩))).Readable :=
        h.readable _ hlast
      refine ⟨before, argument, htokens, ?_, hreadable.2 _ rfl, rfl⟩
      rw [← h.flatMap_text, htokens, List.flatMap_append, List.flatMap_singleton]
      simp [Token.text, SimpleSelector.text, Argument.spelling]
    · have hstrays : strays 0 tokens = strays 0 before := by
        rw [htokens, strays, placed_append, List.filterMap_append]
        exact List.append_nil _
      rw [hstrays, htokens, oddities_append, oddities_of_closed hbefore, notes]
      simp [oddities, oddity?]

end Cuts

end Tokens

/-! ### What the warnings say -/

theorem Text.toString_inj {m n : Nat} (h : toString m = toString n) : m = n := by
  rw [← ofDigits_toString m, h, ofDigits_toString]

namespace Oddity

theorem key_warning (oddity : Oddity) :
    oddity.warning.key = "[Selector] " ++ oddity.message :=
  rfl

theorem message_stray (char : Char) (offset : Nat) :
    (stray char offset).message = "unexpected '" ++ (String.singleton char ++
      ("' at offset " ++ (toString offset ++ " treated as a combinator"))) := by
  simp only [← String.append_assoc]
  rfl

theorem message_unclosedArgument (pseudo : String) (offset : Nat) :
    (unclosedArgument pseudo offset).message =
      "unbalanced parentheses after ':" ++ (pseudo ++ ("(' at offset " ++ toString offset)) := by
  simp only [← String.append_assoc]
  rfl

/-- Stray characters at different offsets have different keys, even if the characters are equal. -/
theorem offset_eq_of_key {char char' : Char} {offset offset' : Nat}
    (h : (stray char offset).warning.key = (stray char' offset').warning.key) :
    offset = offset' := by
  rw [key_warning, key_warning, String.append_right_inj, message_stray, message_stray,
    String.append_right_inj, ← String.toList_inj] at h
  simp only [String.toList_append (s := String.singleton _), String.toList_singleton,
    List.singleton_append, List.cons.injEq, String.toList_inj] at h
  rw [String.append_right_inj, String.append_left_inj] at h
  exact toString_inj h.2

theorem key_stray_ne (char : Char) (pseudo : String) (offset offset' : Nat) :
    (stray char offset).warning.key ≠ (unclosedArgument pseudo offset').warning.key := by
  rw [key_warning, key_warning, ne_eq, String.append_right_inj, message_stray,
    message_unclosedArgument]
  intro h
  have hstart := congrArg (fun s : String => s.toList.take 3) h
  simp only [String.toList_append] at hstart
  cases hstart

end Oddity

/-- All oddities of a text have different keys. -/
theorem Tokens.nodup_notes {strays : List (Char × Nat)} (h : strays.Pairwise (·.2 < ·.2))
    (unclosed : Option (List Char × Nat)) :
    ((notes strays unclosed).map fun oddity => oddity.warning.key).Nodup := by
  rw [notes, List.map_append, List.map_map, List.map_map]
  refine List.nodup_append.2 ⟨?_, ?_, ?_⟩
  · refine List.pairwise_map.2 (h.imp fun hlt hkey => ?_)
    have hoffset := Oddity.offset_eq_of_key hkey
    omega
  · cases unclosed with
    | none => exact .nil
    | some pair => exact List.nodup_singleton _
  · intro key hkey key' hkey'
    obtain ⟨stray, _, rfl⟩ := List.mem_map.1 hkey
    obtain ⟨pair, _, rfl⟩ := List.mem_map.1 hkey'
    exact Oddity.key_stray_ne _ _ _ _

/-! ### Printed lines -/

namespace Console

theorem lineCount_eq_zero_iff {text : String} : lineCount text = 0 ↔ '\n' ∉ text.toList :=
  List.count_eq_zero

theorem lineCount_toString (n : Nat) : lineCount (toString n) = 0 := by
  rw [lineCount_eq_zero_iff, show toString n = String.ofList (Nat.toDigits 10 n) from rfl,
    String.toList_ofList]
  intro hmem
  exact absurd (Nat.isDigit_of_mem_toDigits (by decide) (by decide) hmem) (by decide)

theorem lineCount_content_stray {char : Char} (h : Gap.starts char = false) (offset : Nat) :
    lineCount (content (Oddity.stray char offset).warning) = 0 := by
  have hchar : lineCount (String.singleton char) = 0 := by
    rw [lineCount_eq_zero_iff, String.toList_singleton, List.mem_singleton]
    rintro rfl
    exact absurd h (by decide)
  show lineCount ("Selector" ++ (Oddity.stray char offset).message) = 0
  simp only [Oddity.message_stray, lineCount_append, hchar, lineCount_toString]
  decide

theorem lineCount_content_unclosedArgument {name : List Char}
    (h : name.all SimpleSelector.isPseudoLetter = true) (offset : Nat) :
    lineCount (content (Oddity.unclosedArgument (String.ofList name) offset).warning) = 0 := by
  have hname : lineCount (String.ofList name) = 0 := by
    rw [lineCount_eq_zero_iff, String.toList_ofList]
    intro hmem
    exact absurd (List.all_eq_true.1 h _ hmem) (by decide)
  show lineCount ("Selector" ++
    (Oddity.unclosedArgument (String.ofList name) offset).message) = 0
  simp only [Oddity.message_unclosedArgument, lineCount_append, hname, lineCount_toString]
  decide

/-- Warnings that have no line feed in them take one line each. -/
theorem lineCount_join_of_plain (colour : Bool) {warnings : List Warning}
    (h : ∀ warning ∈ warnings, lineCount (content warning) = 0) :
    lineCount (String.join (warnings.map (line colour))) = warnings.length := by
  induction warnings with
  | nil => rfl
  | cons warning warnings ih =>
    obtain ⟨hfirst, hrest⟩ := List.forall_mem_cons.1 h
    rw [List.map_cons, String.join_cons, lineCount_append, lineCount_line, hfirst, ih hrest,
      List.length_cons]
    omega

end Console

namespace Tokens

theorem Noted.lineCount_content {cs : List Char} {tokens : List Token}
    {strays : List (Char × Nat)} {unclosed : Option (List Char × Nat)}
    (h : Noted cs tokens strays unclosed) (hreadable : ∀ token ∈ tokens, token.Readable) :
    ∀ oddity ∈ notes strays unclosed,
      Console.lineCount (Console.content oddity.warning) = 0 := by
  intro oddity hmem
  rcases List.mem_append.1 hmem with hmem | hmem
  · obtain ⟨⟨char, offset⟩, hstray, rfl⟩ := List.mem_map.1 hmem
    exact Console.lineCount_content_stray (h.stray_at char offset hstray).2.1 offset
  · obtain ⟨⟨name, offset⟩, hunclosed, rfl⟩ := List.mem_map.1 hmem
    obtain ⟨before, argument, htokens, _⟩ :=
      h.unclosed_last name offset (Option.mem_toList.1 hunclosed)
    have hname : (Token.simple (.pseudo name (some ⟨argument, false⟩))).Readable :=
      hreadable _ (by simp [htokens])
    exact Console.lineCount_content_unclosedArgument hname.1 offset

end Tokens

/-- A selector that can be read is cut into tokens, and all that is odd about these is noted: first
the stray characters in order, and then an argument that is not closed. A console that remembers
nothing prints all of it, with one line for each. -/
theorem Selector.parse_notes_tokens {text : String} {selector : Selector}
    (h : (parse text).result = .ok selector) :
    ∃ tokens strays unclosed,
      Tokens.Cuts [] tokens (trim text.toList) ∧
      tokens.flatMap Token.text = trim text.toList ∧
      ofTokens tokens = selector ∧
      Tokens.Noted (trim text.toList) tokens strays unclosed ∧
      (parse text).oddities = Tokens.notes strays unclosed ∧
      ∀ console : Console,
        let printed := (console.clear.observe (parse text)).1
        printed = String.join ((parse text).warnings.map (Console.line console.colour)) ∧
          Console.lineCount printed = strays.length + unclosed.toList.length := by
  obtain ⟨hhalt, hselector⟩ := result_read_eq_ok_iff.1 h
  have hcuts := Tokens.cuts_read hhalt
  obtain ⟨unclosed, hnoted, hoddities⟩ := hcuts.exists_noted
  rw [← oddities_read] at hoddities
  refine ⟨_, _, unclosed, hcuts, hcuts.flatMap_text, hselector, hnoted, hoddities,
    fun console => ?_⟩
  have hwarnings : (parse text).warnings = (Tokens.notes _ unclosed).map Oddity.warning :=
    congrArg (List.map Oddity.warning) hoddities
  have hprinted : (console.clear.observe (parse text)).1 =
      String.join ((parse text).warnings.map (Console.line console.colour)) := by
    refine Console.text_warnAll_of_nodup ?_ fun _ _ => List.not_mem_nil
    rw [hwarnings, List.map_map]
    exact Tokens.nodup_notes hnoted.increasing unclosed
  refine ⟨hprinted, ?_⟩
  rw [hprinted, hwarnings, Console.lineCount_join_of_plain]
  · simp [Tokens.notes]
  · intro warning hmem
    obtain ⟨oddity, hoddity, rfl⟩ := List.mem_map.1 hmem
    exact hnoted.lineCount_content hcuts.readable oddity hoddity

/-- The parenthesis that is closed is not the first one. -/
theorem Selector.parse_notes_tokens_unclosed :
    let text := " a+ä b:not(c(é) "
    let oddities := [.stray '+' 1, .stray 'ä' 2, .unclosedArgument "not" 11]
    (parse text).result =
        .ok [{ element := some "a" }, { element := some "b", pseudos := [⟨"not", some "c(é)"⟩] }] ∧
      (parse text).oddities = oddities ∧
      ∀ console : Console,
        let printed := (console.clear.observe (parse text)).1
        printed = String.join (oddities.map fun oddity =>
          Console.line console.colour oddity.warning) ∧ Console.lineCount printed = 3 := by
  intro text oddities
  have hresult : (parse text).result =
      .ok [{ element := some "a" }, { element := some "b", pseudos := [⟨"not", some "c(é)"⟩] }] := by
    cbv
  have hoddities : (parse text).oddities = oddities := by cbv
  obtain ⟨_, strays, unclosed, _, _, _, _, hnotes, hprinted⟩ := parse_notes_tokens hresult
  have hlength : (Tokens.notes strays unclosed).length = 3 := by
    rw [← hnotes, hoddities]
    rfl
  refine ⟨hresult, hoddities, fun console => ?_⟩
  obtain ⟨htext, hlines⟩ := hprinted console
  rw [Outcome.warnings, hoddities, List.map_map] at htext
  refine ⟨htext, hlines.trans ?_⟩
  simpa [Tokens.notes] using hlength

end SelectorPath

import SelectorPath.Proofs.Console
import SelectorPath.Proofs.Query.Composition
import SelectorPath.Proofs.Query.Simulation

/-! Work with a console at hand. Here a warning is given as soon as its cause is met, in the middle
of the work, to a console that remembers what it has shown before. That makes no difference: from
every console the result is the same, and the console prints and keeps what it would if all warnings
were given when the work is done. Which these are depends on the text alone. The first error ends
them, and those about the arguments of negations follow all those about the text itself. -/

namespace SelectorPath

open Text XPath

/-- Work that has a console at hand: what it prints, the console that it leaves, and its result. -/
def Live (α : Type) : Type :=
  Console → (String × Console) × Except SelectorError α

namespace Live

variable {α β : Type}

def pure (a : α) : Live α := fun console => (("", console), .ok a)

/-- Work that leaves the console alone. -/
def ofExcept (result : Except SelectorError α) : Live α := fun console => (("", console), result)

def note (oddity : Oddity) : Live Unit := fun console => (console.warn oddity.warning, .ok ())

/-- Goes on with the console as it is by then. After an error nothing more is done. -/
def bind (x : Live α) (f : α → Live β) : Live β := fun console =>
  match x console with
  | (shown, .error error) => (shown, .error error)
  | ((text, console), .ok a) =>
    let ((texts, console), result) := f a console
    ((text ++ texts, console), result)

instance : Monad Live where
  pure := pure
  bind := bind

instance : LawfulMonad Live := LawfulMonad.mk' Live
  (by
    intro α x
    funext console
    simp only [Functor.map, bind]
    rcases x console with ⟨⟨text, after⟩, _ | a⟩ <;> simp [pure])
  (by
    intro α β a f
    funext console
    simp [Bind.bind, Pure.pure, bind, pure])
  (by
    intro α β γ x f g
    funext console
    simp only [Bind.bind, bind]
    rcases x console with ⟨⟨text, after⟩, _ | a⟩
    · rfl
    · simp only
      rcases f a after with ⟨⟨text', after'⟩, _ | b⟩
      · rfl
      · simp [String.append_assoc])

/-! ### Reading -/

/-- Reads tokens of a whole text from an offset on. What is odd about one is told before the next is
read. -/
def tokens (whole : List Char) (offset : Nat) (cs : List Char) : Live (List Token) :=
  match cs with
  | [] => return []
  | c :: cs =>
    match h : Token.read c cs with
    | .error halt => ofExcept (.error (.block halt.fault (offsetOf whole halt.rest)))
    | .ok (token, rest) => do
      (Tokens.oddity? offset token).forM note
      have := Token.length_lt_of_read h
      return token :: (← tokens whole (offset + byteSize token.text) rest)
termination_by cs.length
decreasing_by exact this

def selector (text : List Char) : Live Selector :=
  Selector.ofTokens <$> tokens (trim text) 0 (trim text)

instance : Work Live where
  ofExcept := ofExcept
  note := note
  selector := selector

/-! ### Queries -/

def selectorList (text : String) : Live SelectorList :=
  SelectorList.readIn Live text.toList

/-- The argument of a negation is read in the middle of stating the selector that it stands in. -/
def negation (argument : String) : Live Expr :=
  Negation.exprIn Live Negation.limit argument

def tests (compound : Compound) : Live (List Expr) :=
  compound.testsWith negation

def path (selector : Selector) : Live Path :=
  selector.pathWith negation

def xpath (text : String) : Live String :=
  Union.render <$> queryWith negation text

/-! ### Giving all warnings afterwards -/

/-- From every console, the work has the result of the outcome, and prints and leaves what there is
when the warnings of the outcome are given in order. -/
def Performs (x : Live α) (outcome : Outcome α) : Prop :=
  ∀ console, x console = (console.warnAll outcome.warnings, outcome.result)

namespace Performs

theorem pure (a : α) : Performs (Pure.pure a) (Pure.pure a) :=
  fun _ => rfl

theorem ofExcept (result : Except SelectorError α) :
    Performs (Live.ofExcept result) (.ofExcept result) :=
  fun _ => rfl

theorem note (oddity : Oddity) : Performs (Live.note oddity) (.note oddity) := by
  intro console
  simp [Live.note, Outcome.note, Outcome.warnings, Console.warnAll]

theorem bind {x : Live α} {y : Outcome α} {f : α → Live β} {g : α → Outcome β}
    (h : x.Performs y) (each : ∀ a, y.result = .ok a → (f a).Performs (g a)) :
    (x >>= f).Performs (y >>= g) := by
  intro console
  show Live.bind x f console = _
  rw [Live.bind, h console]
  cases hy : y.result with
  | error error => rw [Outcome.warnings_bind_of_error hy, Outcome.bind_of_error hy]
  | ok a =>
    have hf := each a hy (console.warnAll y.warnings).2
    rw [Outcome.warnings_bind_of_ok hy, Outcome.result_bind_of_ok hy, Console.warnAll_append]
    simp only [hf]

theorem map {x : Live α} {y : Outcome α} (h : x.Performs y) (f : α → β) :
    (f <$> x).Performs (f <$> y) :=
  bind h fun a _ => pure (f a)

end Performs

end Live

/-! ### Tokens one by one -/

theorem Outcome.forM_note (oddity : Option Oddity) :
    oddity.forM Outcome.note = ⟨oddity.toList, .ok ()⟩ := by
  cases oddity <;> rfl

namespace Tokens

theorem outcome_of_ok {c : Char} {cs rest : List Char} {token : Token}
    (h : Token.read c cs = .ok (token, rest)) (whole : List Char) (offset : Nat) :
    outcome whole offset (c :: cs) = (do
      (oddity? offset token).forM Outcome.note
      return token :: (← outcome whole (offset + byteSize token.text) rest)) := by
  rw [Outcome.forM_note, outcome, outcome, read_of_ok h]
  cases hhalt : (read rest).halt <;>
    simp [cons, hhalt, oddities, Bind.bind, Outcome.bind, Pure.pure, Outcome.pure]

end Tokens

/-! ### Both ways compared -/

namespace Live

theorem performs_tokens (whole : List Char) (offset : Nat) (cs : List Char) :
    (tokens whole offset cs).Performs (Tokens.outcome whole offset cs) := by
  fun_induction tokens whole offset cs with
  | case1 offset =>
    rw [Tokens.outcome, Tokens.read_nil]
    exact .pure []
  | case2 offset c cs halt h =>
    rw [Tokens.outcome, Tokens.read_of_error h]
    exact .ofExcept _
  | case3 offset c cs token rest h ih =>
    rw [Tokens.outcome_of_ok h]
    refine .bind ?_ fun _ _ => .bind ih fun tokens _ => .pure (token :: tokens)
    cases Tokens.oddity? offset token with
    | none => exact .pure _
    | some oddity => exact .note oddity

theorem performs_selector (cs : List Char) : (selector cs).Performs (Selector.read cs) :=
  (performs_tokens _ 0 _).map Selector.ofTokens

theorem simulation_performs : Work.Simulation fun α => @Performs α where
  pure := .pure
  bind := .bind
  ofExcept := .ofExcept
  note := .note
  selector := performs_selector

theorem performs_negation (argument : String) :
    (negation argument).Performs (Negation.expr Negation.limit argument) :=
  simulation_performs.negation_exprIn Negation.limit argument

theorem performs_tests (compound : Compound) : (tests compound).Performs compound.tests :=
  simulation_performs.testsWith fun argument _ => performs_negation argument

theorem performs_path (selector : Selector) : (path selector).Performs selector.path :=
  simulation_performs.pathWith fun _ _ argument _ => performs_negation argument

theorem performs_xpath (text : String) : (xpath text).Performs (SelectorPath.xpath text) := by
  refine simulation_performs.map ?_ Union.render
  exact simulation_performs.queryWith fun argument _ => performs_negation argument

end Live

/-! ### Where the warnings end -/

theorem Text.byteSize_le_of_suffix {cs ds : List Char} (h : cs <:+ ds) :
    byteSize cs ≤ byteSize ds := by
  obtain ⟨before, rfl⟩ := h
  rw [byteSize_append]
  omega

theorem Tokens.exists_pseudo_of_oddity? {offset : Nat} {selector : SimpleSelector} {oddity : Oddity}
    (h : oddity? offset (.simple selector) = some oddity) :
    ∃ name argument, selector = .pseudo name (some argument) ∧ argument.closed = false := by
  cases selector with
  | universal | element | shorthand | block => cases h
  | pseudo name argument =>
    cases argument with
    | none => cases h
    | some argument =>
      refine ⟨name, argument, rfl, ?_⟩
      cases hclosed : argument.closed with
      | false => rfl
      | true =>
        rw [oddity?, if_pos hclosed] at h
        cases h

/-- Before a malformed block, the only oddities are stray characters: an argument that is not closed
would have taken the block in. -/
theorem Tokens.exists_stray_of_mem_oddities {cs : List Char} {halt : Halt}
    (h : (read cs).halt = some halt) {offset : Nat} {oddity : Oddity}
    (hmem : oddity ∈ oddities offset (read cs).list) :
    ∃ char place, oddity = .stray char place ∧
      place + byteSize halt.rest < offset + byteSize cs := by
  fun_induction read cs generalizing offset with
  | case1 => cases h
  | case2 => cases hmem
  | case3 c cs token rest hread _ ih =>
    have hsize : byteSize (c :: cs) = byteSize token.text + byteSize rest := by
      rw [← byteSize_append, Token.text_append_of_read hread]
    have hhalt := byteSize_le_of_suffix (rest_suffix_of_read h)
    rcases List.mem_append.1 hmem with hmem | hmem
    · have hodd := Option.mem_toList.1 hmem
      cases token with
      | gap => cases hodd
      | stray char =>
        obtain rfl := Option.some.inj hodd
        have htext : byteSize (Token.stray char).text = char.utf8Size := Nat.add_zero _
        have hpos := char.utf8Size_pos
        exact ⟨char, offset, rfl, by omega⟩
      | simple selector =>
        obtain ⟨name, argument, rfl, hopen⟩ := exists_pseudo_of_oddity? hodd
        have hends := (Token.read_eq_ok_iff.1 hread).2.1
        obtain rfl : rest = [] := Or.resolve_left hends (by simp [hopen])
        rw [read_nil] at h
        cases h
    · obtain ⟨char, place, rfl, hplace⟩ := ih h hmem
      exact ⟨char, place, rfl, by omega⟩

theorem Selector.exists_stray_of_mem_oddities {cs : List Char} {fault : BlockFault} {offset : Nat}
    (h : (read cs).result = .error (.block fault offset)) {oddity : Oddity}
    (hmem : oddity ∈ (read cs).oddities) :
    ∃ char place, oddity = .stray char place ∧ place < offset := by
  obtain ⟨halt, hhalt, heq⟩ := result_read_eq_error_iff.1 h
  rw [oddities_read] at hmem
  obtain ⟨char, place, rfl, hplace⟩ := Tokens.exists_stray_of_mem_oddities hhalt hmem
  obtain ⟨_, rfl⟩ := SelectorError.block.inj heq
  refine ⟨char, place, rfl, ?_⟩
  rw [offsetOf]
  omega

theorem SelectorList.warnings_parse_of_ok {text : String} {selectors : SelectorList}
    (h : (parse text).result = .ok selectors) :
    let members := split text.toList
    (parse text).warnings =
      members.flatMap fun m => (readMember (members.length > 1) m).warnings := by
  refine Outcome.warnings_mapM_of_ok fun m hm => ?_
  obtain ⟨selector, _, hselector⟩ := exists_right_of_forall₂ (Outcome.result_mapM_eq_ok.1 h) hm
  exact ⟨selector, hselector⟩

theorem SelectorList.warnings_parse_of_error {text : String} {before after : List (List Char)}
    {member : List Char} {error : SelectorError}
    (hsplit : split text.toList = before ++ member :: after)
    (hbefore : ∀ m ∈ before, ∃ s, (Selector.read m).result = .ok s)
    (herror : (Selector.read member).result = .error error) :
    (parse text).warnings = (before ++ [member]).flatMap fun m =>
      (readMember ((split text.toList).length > 1) m).warnings := by
  simp only [← result_readMember ((split text.toList).length > 1)] at hbefore herror
  have hwarnings := Outcome.warnings_mapM_of_error hbefore herror after
  rwa [← hsplit] at hwarnings

theorem warnings_xpath_of_ok {text : String} {selectors : SelectorList}
    (h : (SelectorList.parse text).result = .ok selectors) :
    (xpath text).warnings = (SelectorList.parse text).warnings ++ selectors.union.warnings := by
  rw [xpath, Outcome.warnings_map, query_eq_bind, Outcome.warnings_bind_of_ok h]

/-- Nothing is stated, and no argument read, if a member cannot be read. -/
theorem warnings_xpath_of_error {text : String} {error : SelectorError}
    (h : (SelectorList.parse text).result = .error error) :
    (xpath text).warnings = (SelectorList.parse text).warnings := by
  rw [xpath, Outcome.warnings_map, query_eq_bind, Outcome.warnings_bind_of_error h]

/-- Whatever the console remembers, and whether it has colour, what is read or stated with it at
hand has the same result, and gives the console the same warnings in the same order. For a selector
list these are the warnings of its members up to the first that cannot be read, where in a member
none is about a place behind the error. If all can be read, those met in stating the members follow,
up to the first that cannot be stated. -/
theorem live_performs_in_order (text : String) (selector : Selector) (compound : Compound) :
    (Live.selector text.toList).Performs (Selector.parse text) ∧
    (Live.selectorList text).Performs (SelectorList.parse text) ∧
    (Live.tests compound).Performs compound.tests ∧
    (Live.path selector).Performs selector.path ∧
    (Live.xpath text).Performs (xpath text) ∧
    (∀ fault offset, (Selector.parse text).result = .error (.block fault offset) →
      ∀ oddity ∈ (Selector.parse text).oddities, ∃ char place, oddity = .stray char place ∧
        place < offset) ∧
    let members := SelectorList.split text.toList
    let warningsOf := fun m => (SelectorList.readMember (members.length > 1) m).warnings
    (∀ before member after error, members = before ++ member :: after →
      (∀ m ∈ before, ∃ s, (Selector.read m).result = .ok s) →
      (Selector.read member).result = .error error →
      (xpath text).result = .error error ∧
        (SelectorList.parse text).warnings = (before ++ [member]).flatMap warningsOf ∧
        (xpath text).warnings = (before ++ [member]).flatMap warningsOf) ∧
    ∀ selectors, (SelectorList.parse text).result = .ok selectors →
      (SelectorList.parse text).warnings = members.flatMap warningsOf ∧
      (xpath text).warnings = members.flatMap warningsOf ++ selectors.union.warnings ∧
      ∀ before s after error, selectors = before ++ s :: after →
        (∀ t ∈ before, ∃ path, t.path.result = .ok path) → s.path.result = .error error →
        (xpath text).result = .error error ∧
          selectors.union.warnings = (before ++ [s]).flatMap fun t => t.path.warnings := by
  refine ⟨Live.performs_selector _, Live.simulation_performs.readIn _, Live.performs_tests compound,
    Live.performs_path selector, Live.performs_xpath text,
    fun fault offset h oddity => Selector.exists_stray_of_mem_oddities h, ?_⟩
  intro members warningsOf
  constructor
  · intro before member after error hmembers hbefore herror
    have hparse : (SelectorList.parse text).result = .error error :=
      SelectorList.result_read_eq_error.2 ⟨before, member, after, hmembers, hbefore, herror⟩
    have hwarnings := SelectorList.warnings_parse_of_error hmembers hbefore herror
    refine ⟨result_xpath_of_error hparse, hwarnings, ?_⟩
    rw [warnings_xpath_of_error hparse, hwarnings]
  · intro selectors hparse
    have hwarnings := SelectorList.warnings_parse_of_ok hparse
    refine ⟨hwarnings, ?_, ?_⟩
    · rw [warnings_xpath_of_ok hparse, hwarnings]
    · rintro before s after error rfl hbefore herror
      refine ⟨?_, Outcome.warnings_mapM_of_error hbefore herror after⟩
      have hunion : (SelectorList.union (before ++ s :: after)).result = .error error :=
        Outcome.result_mapM_eq_error.2 ⟨before, s, after, rfl, hbefore, herror⟩
      rw [result_xpath_of_parse hparse, hunion]
      rfl

/-- The warning about the argument in the first member comes after the one about the second member,
which this console has shown before. In the other list, the last member is not reached. -/
theorem live_performs_in_order_negation :
    let first := (Oddity.stray '+' 1).warning
    let second := (Oddity.stray '+' 0).warning
    let console : Console := { log := ⟨[first.key]⟩, colour := true }
    let x := "/*/descendant::*[name() = \"a\"][not(name() = \"c\")]|" ++
      "/*/descendant::*[name() = \"b\"]/descendant::*"
    (xpath "a:not(+c),b+").warnings = [first, second] ∧
      Live.xpath "a:not(+c),b+" console =
        ((Console.line true second, { log := ⟨[second.key, first.key]⟩, colour := true }), .ok x) ∧
      (xpath "a+,[],bb+").result = .error (.block .missingName 1) ∧
      (xpath "a+,[],bb+").warnings = [first] := by
  intro first second console x
  have hoddities : (xpath "a:not(+c),b+").oddities = [.stray '+' 1, .stray '+' 0] := by cbv
  have hwarnings : (xpath "a:not(+c),b+").warnings = [first, second] := by
    rw [Outcome.warnings, hoddities]
    rfl
  refine ⟨hwarnings, ?_, ?_⟩
  · have hresult : (xpath "a:not(+c),b+").result = .ok x := by cbv
    have hnew : second.key ≠ first.key := by decide +kernel
    rw [(live_performs_in_order "a:not(+c),b+" [] {}).2.2.2.2.1 console, hwarnings, hresult]
    simp [Console.warnAll, Console.warn, console, Log.contains, Log.insert, Log.size, Log.capacity,
      hnew]
  · have hread : (Selector.read ['a', '+']).result = .ok [{ element := some "a" }, {}] := by cbv
    have herror : (Selector.read ['[', ']']).result = .error (.block .missingName 1) := by cbv
    have hfirst : (SelectorList.readMember true ['a', '+']).oddities = [.stray '+' 1] := by cbv
    have hlast : (SelectorList.readMember true ['[', ']']).oddities = [] := by cbv
    obtain ⟨hresult, _, hwarnings⟩ := (live_performs_in_order "a+,[],bb+" [] {}).2.2.2.2.2.2.1
      [['a', '+']] ['[', ']'] [['b', 'b', '+']] _ (by decide) (by simp [hread]) herror
    refine ⟨hresult, hwarnings.trans ?_⟩
    show (SelectorList.readMember true ['a', '+']).warnings ++
      ((SelectorList.readMember true ['[', ']']).warnings ++ []) = [first]
    rw [Outcome.warnings, Outcome.warnings, hfirst, hlast]
    rfl

end SelectorPath

import SelectorPath.Json.Reader

/-! Reading JSON undoes printing it. A quoted text has no mark of its own inside and so ends where
it should, the blanks that set out a value are skipped again, and the value is read whatever follows
it. The induction is on the value; items and fields are read one after the other from a text that
has them all. -/

namespace SelectorPath.Json

/-! ### Quoted text -/

theorem hex?_control : ∀ n < 0x20,
    hex? ['0', '0', Nat.digitChar (n / 16), Nat.digitChar (n % 16)] = some n := by
  decide

theorem char?_toNat (c : Char) : char? c.toNat = some c :=
  dif_pos c.valid

/-- A character is read back from the way it stands in a quoted text. -/
theorem readText_escape (c : Char) (cs : List Char) :
    readText (escape c ++ cs) = (do
      let (text, rest) ← readText cs
      return (c :: text, rest)) := by
  fun_cases escape c with
  | case1 h | case2 _ h | case3 _ _ h | case4 _ _ _ h | case5 _ _ _ _ h | case6 _ _ _ _ _ h
  | case7 _ _ _ _ _ _ h =>
    subst h
    rfl
  | case8 _ _ _ _ _ _ _ hcontrol =>
    simp only [List.cons_append, List.nil_append, readText, hex?_control _ hcontrol,
      Option.bind_eq_bind, Option.bind_some, char?_toNat]
  | case9 hmark hback _ _ _ _ _ hcontrol =>
    rw [List.singleton_append, readText, if_neg hcontrol]
    · exact hmark
    · exact fun _ _ _ _ _ h => absurd h hback
    · exact fun _ _ h => absurd h hback

theorem readText_escaped (text cs : List Char) :
    readText (text.flatMap escape ++ '"' :: cs) = some (text, cs) := by
  induction text with
  | nil => rfl
  | cons c text ih =>
    rw [List.flatMap_cons, List.append_assoc, readText_escape, ih]
    rfl

/-! ### Blanks -/

theorem skipBlanks_append {blanks : List Char} (h : blanks.all Char.isWhitespace = true)
    (cs : List Char) : skipBlanks (blanks ++ cs) = skipBlanks cs := by
  rw [skipBlanks, List.dropWhile_append_of_pos (List.all_eq_true.1 h)]
  rfl

theorem skipBlanks_cons {c : Char} (h : c.isWhitespace = false) (cs : List Char) :
    skipBlanks (c :: cs) = c :: cs := by
  rw [skipBlanks, List.dropWhile_cons_of_neg (by simp [h])]

theorem skipBlanks_lineFeed (cs : List Char) : skipBlanks ('\n' :: cs) = skipBlanks cs := rfl

theorem skipBlanks_space (cs : List Char) : skipBlanks (' ' :: cs) = skipBlanks cs := rfl

theorem all_indent (level : Nat) : (indent level).toList.all Char.isWhitespace = true := by
  simp [indent]

/-! ### The text of values -/

theorem toList_quoted (text : String) :
    (quoted text).toList = '"' :: (text.toList.flatMap escape ++ ['"']) :=
  String.toList_ofList

theorem toList_quoted_append (text : String) (cs : List Char) :
    (quoted text).toList ++ cs = '"' :: (text.toList.flatMap escape ++ '"' :: cs) := by
  rw [toList_quoted, List.cons_append, List.append_assoc, List.singleton_append]

theorem toList_pretty_array (level : Nat) (item : Json) (items : List Json) :
    ((array (item :: items)).pretty level).toList =
      '[' :: '\n' :: ((prettyItems (level + 1) (item :: items)).toList ++
        ('\n' :: (indent level).toList ++ [']'])) := by
  simp [pretty]

theorem toList_pretty_object (level : Nat) (field : String × Json) (fields : List (String × Json)) :
    ((object (field :: fields)).pretty level).toList =
      '\x7b' :: '\n' :: ((prettyFields (level + 1) (field :: fields)).toList ++
        ('\n' :: (indent level).toList ++ ['\x7d'])) := by
  simp [pretty]

theorem toList_prettyItems_cons (level : Nat) (item : Json) (items : List Json) :
    (prettyItems level (item :: items)).toList =
      (indent level).toList ++ ((item.pretty level).toList ++
        if items = [] then [] else ',' :: '\n' :: (prettyItems level items).toList) := by
  cases items <;> simp [prettyItems]

theorem toList_prettyFields_cons (level : Nat) (key : String) (value : Json)
    (fields : List (String × Json)) :
    (prettyFields level ((key, value) :: fields)).toList =
      (indent level).toList ++ ((quoted key).toList ++ ':' :: ' ' :: ((value.pretty level).toList ++
        if fields = [] then [] else ',' :: '\n' :: (prettyFields level fields).toList)) := by
  cases fields <;> simp [prettyFields]

/-- A value starts with a mark that is not blank. -/
theorem exists_cons_pretty (level : Nat) (value : Json) :
    ∃ c cs, (value.pretty level).toList = c :: cs ∧ c.isWhitespace = false := by
  cases value with
  | null => exact ⟨'n', _, by rw [pretty]; rfl, by decide⟩
  | bool b => cases b <;> exact ⟨_, _, by rw [pretty]; rfl, by decide⟩
  | string text => exact ⟨'"', _, by rw [pretty, toList_quoted], by decide⟩
  | array items =>
    cases items with
    | nil => exact ⟨'[', _, by rw [pretty]; rfl, by decide⟩
    | cons item items => exact ⟨'[', _, toList_pretty_array level item items, by decide⟩
  | object fields =>
    cases fields with
    | nil => exact ⟨'\x7b', _, by rw [pretty]; rfl, by decide⟩
    | cons field fields => exact ⟨'\x7b', _, toList_pretty_object level field fields, by decide⟩

/-! ### Reading values -/

/-- What can be read as items does not start with the end of an array. -/
theorem read_array {fuel : Nat} {cs rest : List Char} {items : List Json}
    (h : readItems fuel (skipBlanks cs) = some (items, rest)) :
    read (fuel + 1) ('[' :: cs) = some (array items, rest) := by
  rw [read]
  split
  · next hskip =>
    rw [hskip] at h
    rcases fuel with _ | _ | fuel <;> cases h
  · rw [h]
    rfl

theorem read_object {fuel : Nat} {cs rest : List Char} {fields : List (String × Json)}
    (h : readFields fuel (skipBlanks cs) = some (fields, rest)) :
    read (fuel + 1) ('\x7b' :: cs) = some (object fields, rest) := by
  rw [read]
  split
  · next hskip =>
    rw [hskip] at h
    cases fuel <;> cases h
  · rw [h]
    rfl

theorem readItems_last {fuel : Nat} {cs rest after : List Char} {item : Json}
    (hread : read fuel cs = some (item, rest)) (hclose : skipBlanks rest = ']' :: after) :
    readItems (fuel + 1) cs = some ([item], after) := by
  rw [readItems, hread]
  simp [hclose]

theorem readItems_more {fuel : Nat} {cs rest after : List Char} {item : Json} {items : List Json}
    (hread : read fuel cs = some (item, ',' :: rest))
    (hmore : readItems fuel (skipBlanks rest) = some (items, after)) :
    readItems (fuel + 1) cs = some (item :: items, after) := by
  have hcomma : skipBlanks (',' :: rest) = ',' :: rest := skipBlanks_cons (by decide) rest
  rw [readItems, hread]
  simp [hcomma, hmore]

theorem readFields_last {fuel : Nat} {cs rest after : List Char} {key : String} {value : Json}
    (hcs : skipBlanks cs = cs) (hread : read fuel cs = some (value, rest))
    (hclose : skipBlanks rest = '\x7d' :: after) :
    readFields (fuel + 1) ((quoted key).toList ++ ':' :: ' ' :: cs) =
      some ([(key, value)], after) := by
  have hcolon : skipBlanks (':' :: ' ' :: cs) = ':' :: ' ' :: cs := skipBlanks_cons (by decide) _
  rw [toList_quoted_append, readFields, readText_escaped]
  simp [hcolon, skipBlanks_space, hcs, hread, hclose]

theorem readFields_more {fuel : Nat} {cs rest after : List Char} {key : String} {value : Json}
    {fields : List (String × Json)} (hcs : skipBlanks cs = cs)
    (hread : read fuel cs = some (value, ',' :: rest))
    (hmore : readFields fuel (skipBlanks rest) = some (fields, after)) :
    readFields (fuel + 1) ((quoted key).toList ++ ':' :: ' ' :: cs) =
      some ((key, value) :: fields, after) := by
  have hcomma : skipBlanks (',' :: rest) = ',' :: rest := skipBlanks_cons (by decide) rest
  have hcolon : skipBlanks (':' :: ' ' :: cs) = ':' :: ' ' :: cs := skipBlanks_cons (by decide) _
  rw [toList_quoted_append, readFields, readText_escaped]
  simp [hcolon, skipBlanks_space, hcs, hread, hcomma, hmore]

theorem skipBlanks_pretty (level : Nat) (value : Json) (rest : List Char) :
    skipBlanks ((value.pretty level).toList ++ rest) = (value.pretty level).toList ++ rest := by
  obtain ⟨c, cs, htext, hblank⟩ := exists_cons_pretty level value
  rw [htext]
  exact skipBlanks_cons hblank (cs ++ rest)

theorem skipBlanks_prettyItems (level : Nat) (item : Json) (items : List Json) (rest : List Char) :
    skipBlanks ((prettyItems level (item :: items)).toList ++ rest) =
      (item.pretty level).toList ++
        ((if items = [] then [] else ',' :: '\n' :: (prettyItems level items).toList) ++ rest) := by
  rw [toList_prettyItems_cons, List.append_assoc, skipBlanks_append (all_indent level),
    List.append_assoc, skipBlanks_pretty]

theorem skipBlanks_prettyFields (level : Nat) (key : String) (value : Json)
    (fields : List (String × Json)) (rest : List Char) :
    skipBlanks ((prettyFields level ((key, value) :: fields)).toList ++ rest) =
      (quoted key).toList ++ ':' :: ' ' :: ((value.pretty level).toList ++
        ((if fields = [] then [] else ',' :: '\n' :: (prettyFields level fields).toList) ++
          rest)) := by
  rw [toList_prettyFields_cons, List.append_assoc, skipBlanks_append (all_indent level),
    toList_quoted]
  simp only [List.cons_append, List.append_assoc]
  exact skipBlanks_cons (by decide) _

/-- A value can be read back from its text at every level, whatever follows it. Reading takes no
more fuel than the text has characters. -/
def ReadsBack (value : Json) : Prop :=
  ∀ (level fuel : Nat) (rest : List Char), (value.pretty level).toList.length ≤ fuel →
    read fuel ((value.pretty level).toList ++ rest) = some (value, rest)

theorem readItems_prettyItems {item : Json} {items : List Json}
    (each : ∀ value ∈ item :: items, value.ReadsBack) (level fuel : Nat)
    (hfuel : (prettyItems level (item :: items)).toList.length < fuel) {close rest : List Char}
    (hclose : skipBlanks close = ']' :: rest) :
    readItems fuel (skipBlanks ((prettyItems level (item :: items)).toList ++ close)) =
      some (item :: items, rest) := by
  induction items generalizing item fuel with
  | nil =>
    obtain ⟨fuel, rfl⟩ := Nat.exists_eq_add_one_of_ne_zero (Nat.ne_zero_of_lt hfuel)
    rw [toList_prettyItems_cons, List.length_append, List.length_append] at hfuel
    have hitem : item.ReadsBack := each item List.mem_cons_self
    rw [skipBlanks_prettyItems]
    exact readItems_last (hitem level fuel _ (by omega)) hclose
  | cons next items ih =>
    obtain ⟨hitem, hitems⟩ := List.forall_mem_cons.1 each
    obtain ⟨fuel, rfl⟩ := Nat.exists_eq_add_one_of_ne_zero (Nat.ne_zero_of_lt hfuel)
    rw [toList_prettyItems_cons, if_neg (List.cons_ne_nil next items)] at hfuel
    simp only [List.length_append, List.length_cons] at hfuel
    rw [skipBlanks_prettyItems, if_neg (List.cons_ne_nil next items)]
    exact readItems_more (hitem level fuel _ (by omega)) (ih hitems fuel (by omega))

theorem readFields_prettyFields {field : String × Json} {fields : List (String × Json)}
    (each : ∀ f ∈ field :: fields, f.2.ReadsBack) (level fuel : Nat)
    (hfuel : (prettyFields level (field :: fields)).toList.length < fuel) {close rest : List Char}
    (hclose : skipBlanks close = '\x7d' :: rest) :
    readFields fuel (skipBlanks ((prettyFields level (field :: fields)).toList ++ close)) =
      some (field :: fields, rest) := by
  induction fields generalizing field fuel with
  | nil =>
    obtain ⟨key, value⟩ := field
    obtain ⟨fuel, rfl⟩ := Nat.exists_eq_add_one_of_ne_zero (Nat.ne_zero_of_lt hfuel)
    rw [toList_prettyFields_cons] at hfuel
    simp only [List.length_append, List.length_cons] at hfuel
    have hvalue : value.ReadsBack := each (key, value) List.mem_cons_self
    rw [skipBlanks_prettyFields]
    exact readFields_last (skipBlanks_pretty level value _) (hvalue level fuel _ (by omega)) hclose
  | cons next fields ih =>
    obtain ⟨key, value⟩ := field
    obtain ⟨hvalue, hfields⟩ := List.forall_mem_cons.1 each
    change value.ReadsBack at hvalue
    obtain ⟨fuel, rfl⟩ := Nat.exists_eq_add_one_of_ne_zero (Nat.ne_zero_of_lt hfuel)
    rw [toList_prettyFields_cons, if_neg (List.cons_ne_nil next fields)] at hfuel
    simp only [List.length_append, List.length_cons] at hfuel
    rw [skipBlanks_prettyFields, if_neg (List.cons_ne_nil next fields)]
    exact readFields_more (skipBlanks_pretty level value _) (hvalue level fuel _ (by omega))
      (ih hfields fuel (by omega))

/-- The end of an array or of an object stands on a line of its own. -/
theorem skipBlanks_close (level : Nat) {c : Char} (h : c.isWhitespace = false) (rest : List Char) :
    skipBlanks ('\n' :: (indent level).toList ++ c :: rest) = c :: rest := by
  rw [List.cons_append, skipBlanks_lineFeed, skipBlanks_append (all_indent level),
    skipBlanks_cons h]

theorem exists_fuel {value : Json} {level fuel : Nat}
    (h : (value.pretty level).toList.length ≤ fuel) : ∃ n, fuel = n + 1 := by
  obtain ⟨c, cs, htext, _⟩ := exists_cons_pretty level value
  rw [htext, List.length_cons] at h
  exact ⟨fuel - 1, by omega⟩

theorem readsBack_array {item : Json} {items : List Json}
    (each : ∀ value ∈ item :: items, value.ReadsBack) : (array (item :: items)).ReadsBack := by
  intro level fuel rest hfuel
  obtain ⟨fuel, rfl⟩ := exists_fuel hfuel
  rw [toList_pretty_array] at hfuel ⊢
  simp only [List.length_cons, List.length_append] at hfuel
  have hitems := readItems_prettyItems each (level + 1) fuel (by omega)
    (skipBlanks_close level (c := ']') (by decide) rest)
  rw [← skipBlanks_lineFeed] at hitems
  simpa using read_array hitems

theorem readsBack_object {field : String × Json} {fields : List (String × Json)}
    (each : ∀ f ∈ field :: fields, f.2.ReadsBack) : (object (field :: fields)).ReadsBack := by
  intro level fuel rest hfuel
  obtain ⟨fuel, rfl⟩ := exists_fuel hfuel
  rw [toList_pretty_object] at hfuel ⊢
  simp only [List.length_cons, List.length_append] at hfuel
  have hfields := readFields_prettyFields each (level + 1) fuel (by omega)
    (skipBlanks_close level (c := '\x7d') (by decide) rest)
  rw [← skipBlanks_lineFeed] at hfields
  simpa using read_object hfields

theorem sizeOf_item_lt {item : Json} {items : List Json} (h : item ∈ items) :
    sizeOf item < sizeOf (array items) := by
  have := List.sizeOf_lt_of_mem h
  rw [array.sizeOf_spec]
  omega

theorem sizeOf_field_lt {field : String × Json} {fields : List (String × Json)}
    (h : field ∈ fields) : sizeOf field.2 < sizeOf (object fields) := by
  obtain ⟨key, value⟩ := field
  have := List.sizeOf_lt_of_mem h
  rw [Prod.mk.sizeOf_spec] at this
  show sizeOf value < _
  rw [object.sizeOf_spec]
  omega

theorem readsBack (value : Json) : value.ReadsBack := by
  match value with
  | null | bool true | bool false | array [] | object [] =>
    intro level fuel rest hfuel
    obtain ⟨fuel, rfl⟩ := exists_fuel hfuel
    rw [pretty]
    rfl
  | string text =>
    intro level fuel rest hfuel
    obtain ⟨fuel, rfl⟩ := exists_fuel hfuel
    rw [pretty, toList_quoted_append, read, readText_escaped]
    simp
  | array (item :: items) => exact readsBack_array fun value hvalue => readsBack value
  | object (field :: fields) => exact readsBack_object fun f hf => readsBack f.2
termination_by sizeOf value
decreasing_by
  · exact sizeOf_item_lt hvalue
  · exact sizeOf_field_lt hf

/-- The text of a value, with a line feed after it, is read as that value. -/
theorem parse?_pretty (value : Json) : parse? (value.pretty 0 ++ "\n") = some value := by
  have hstart : skipBlanks (value.pretty 0 ++ "\n").toList = (value.pretty 0).toList ++ ['\n'] := by
    simpa using skipBlanks_pretty 0 value ['\n']
  have hread := readsBack value 0 (2 * ((value.pretty 0).toList ++ ['\n']).length + 1) ['\n']
    (by rw [List.length_append]; omega)
  rw [parse?, hstart, hread]
  rfl

end SelectorPath.Json

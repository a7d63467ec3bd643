import SelectorPath.Console

/-! Runs of a console. However warnings and clearings follow each other, the log holds the keys of
the last warnings that were shown, and how many these are is known from the number shown since the
log was cleared: the log empties itself before the first key that it has no room for. -/

namespace SelectorPath

/-! ### The log -/

/-- The log holds the keys of the last of these warnings, given newest first, up to the place where
it last emptied itself. -/
structure Log.Remembers (log : Log) (shown : List Warning) : Prop where
  keys : log.keys = (shown.take log.size).map Warning.key
  nodup : log.keys.Nodup
  size : log.size = if shown.length = 0 then 0 else (shown.length - 1) % capacity + 1

namespace Log

theorem contains_iff {log : Log} {warning : Warning} :
    log.contains warning = true ↔ warning.key ∈ log.keys :=
  List.contains_iff_mem

theorem remembers_empty : Remembers {} [] :=
  ⟨rfl, .nil, rfl⟩

theorem contains_insert (log : Log) (warning : Warning) :
    (log.insert warning).contains warning = true := by
  rw [contains_iff, insert]
  split <;> exact List.mem_cons_self

theorem mem_keys_insert {log : Log} {warning : Warning} {key : String}
    (h : key ∈ (log.insert warning).keys) : key = warning.key ∨ key ∈ log.keys := by
  unfold insert at h
  split at h
  · exact List.mem_cons.1 h
  · exact .inl (List.mem_singleton.1 h)

theorem Remembers.size_le {log : Log} {shown : List Warning} (h : log.Remembers shown) :
    log.size ≤ capacity := by
  have hsize := h.size
  have hmod : (shown.length - 1) % capacity < capacity := Nat.mod_lt _ (by decide)
  split at hsize <;> omega

theorem Remembers.contains_iff {log : Log} {shown : List Warning} (h : log.Remembers shown)
    {warning : Warning} :
    log.contains warning = true ↔ warning.key ∈ (shown.take log.size).map Warning.key := by
  rw [Log.contains_iff, h.keys]

theorem Remembers.insert {log : Log} {shown : List Warning} (h : log.Remembers shown)
    {warning : Warning} (hnew : log.contains warning = false) :
    (log.insert warning).Remembers (warning :: shown) := by
  have hsize := h.size
  unfold Log.insert
  by_cases hroom : log.size < capacity
  · rw [if_pos hroom]
    have hkey : warning.key ∉ log.keys := by
      rw [← Log.contains_iff, hnew]
      exact Bool.false_ne_true
    refine ⟨congrArg (warning.key :: ·) h.keys, List.nodup_cons.2 ⟨hkey, h.nodup⟩, ?_⟩
    show log.size + 1 = shown.length % capacity + 1
    rw [capacity] at *
    split at hsize <;> omega
  · -- Here the number shown is a multiple of the capacity.
    rw [if_neg hroom]
    refine ⟨rfl, List.nodup_cons.2 ⟨List.not_mem_nil, .nil⟩, ?_⟩
    show 1 = shown.length % capacity + 1
    rw [capacity] at *
    split at hsize <;> omega

end Log

/-! ### Printed text -/

namespace Console

/-- What a warning says, without the frame that its line gives it. -/
def content (warning : Warning) : String :=
  warning.component ++ warning.message

theorem lineCount_styled (colour : Bool) (text : String) :
    lineCount (styled colour .yellow text) = lineCount text := by
  cases colour with
  | false => rfl
  | true =>
    have hstart : lineCount Style.yellow.start = 0 := by decide
    have hstop : lineCount Style.yellow.stop = 0 := by decide
    show lineCount (Style.yellow.start ++ text ++ Style.yellow.stop) = lineCount text
    rw [lineCount_append, lineCount_append]
    omega

theorem lineCount_line (colour : Bool) (warning : Warning) :
    lineCount (line colour warning) = 1 + lineCount (content warning) := by
  have hstart : lineCount "[css2xpath " = 0 := by decide
  have hsign : lineCount "] ⚠ " = 0 := by decide
  have hstop : lineCount "\n" = 1 := by decide
  rw [line, lineCount_append, lineCount_styled]
  show lineCount ("[css2xpath " ++ warning.component ++ "] ⚠ " ++ warning.message) +
    lineCount "\n" = 1 + lineCount (content warning)
  simp only [content, lineCount_append]
  omega

theorem line_ne_empty (colour : Bool) (warning : Warning) : line colour warning ≠ "" := by
  intro h
  have hcount := lineCount_line colour warning
  rw [h] at hcount
  have hzero : lineCount "" = 0 := rfl
  omega

theorem warn_eq (console : Console) (warning : Warning) :
    (console.log.contains warning = true ∧ console.warn warning = ("", console)) ∨
      (console.log.contains warning = false ∧ console.warn warning =
        (line console.colour warning, { console with log := console.log.insert warning })) := by
  unfold warn
  cases console.log.contains warning <;> simp

theorem colour_warnAll (console : Console) (warnings : List Warning) :
    (console.warnAll warnings).2.colour = console.colour := by
  induction warnings generalizing console with
  | nil => rfl
  | cons warning warnings ih =>
    refine (ih (console.warn warning).2).trans ?_
    rcases warn_eq console warning with ⟨_, hwarn⟩ | ⟨_, hwarn⟩ <;> rw [hwarn]

/-- Warnings that follow others find the console as those have left it. -/
theorem warnAll_append (console : Console) (first second : List Warning) :
    console.warnAll (first ++ second) =
      ((console.warnAll first).1 ++ ((console.warnAll first).2.warnAll second).1,
        ((console.warnAll first).2.warnAll second).2) := by
  induction first generalizing console with
  | nil => simp [warnAll]
  | cons warning first ih => simp [warnAll, ih, String.append_assoc]

/-! ### Runs -/

inductive Call
  | warn (warning : Warning)
  | clear

/-- A console, and what it has shown since it was last cleared: the warnings, newest first, and
their text. -/
structure Session where
  console : Console
  shown : List Warning := []
  printed : String := ""

namespace Session

/-- A warning counts as shown if it prints something. -/
def step (session : Session) : Call → Session
  | .warn warning =>
    let (text, console) := session.console.warn warning
    { console
      shown := if text = "" then session.shown else warning :: session.shown
      printed := session.printed ++ text }
  | .clear => { console := session.console.clear }

/-- The calls one after another, from an empty log. -/
def run (colour : Bool) (calls : List Call) : Session :=
  calls.foldl step { console := { colour } }

/-- The state of a session is known from what it has shown. -/
structure Consistent (colour : Bool) (session : Session) : Prop where
  colour_eq : session.console.colour = colour
  log : session.console.log.Remembers session.shown
  printed : session.printed = String.join (session.shown.reverse.map (line colour))

theorem consistent_empty (colour : Bool) :
    Consistent colour { console := { colour } } :=
  ⟨rfl, Log.remembers_empty, rfl⟩

theorem Consistent.step {colour : Bool} {session : Session} (h : session.Consistent colour)
    (call : Call) : (session.step call).Consistent colour := by
  obtain ⟨rfl, hlog, hprinted⟩ := h
  cases call with
  | clear => exact ⟨rfl, Log.remembers_empty, rfl⟩
  | warn warning =>
    rcases warn_eq session.console warning with ⟨_, hwarn⟩ | ⟨hnew, hwarn⟩
    · simp only [Session.step, hwarn, if_pos, String.append_empty]
      exact ⟨rfl, hlog, hprinted⟩
    · simp only [Session.step, hwarn, if_neg (line_ne_empty _ warning)]
      refine ⟨rfl, hlog.insert hnew, ?_⟩
      simp [hprinted, String.join_append]

theorem Consistent.foldl_step {colour : Bool} {session : Session} (h : session.Consistent colour)
    (calls : List Call) : (calls.foldl Session.step session).Consistent colour := by
  induction calls generalizing session with
  | nil => exact h
  | cons call calls ih => exact ih (h.step call)

theorem consistent_run (colour : Bool) (calls : List Call) :
    (run colour calls).Consistent colour :=
  (consistent_empty colour).foldl_step calls

/-- A warning prints its line exactly if the log does not remember its key. -/
theorem Consistent.text_warn {colour : Bool} {session : Session} (h : session.Consistent colour)
    (warning : Warning) :
    (session.console.warn warning).1 =
      if warning.key ∈ (session.shown.take session.console.log.size).map Warning.key then ""
      else line colour warning := by
  obtain ⟨rfl, hlog, _⟩ := h
  rcases warn_eq session.console warning with ⟨hold, hwarn⟩ | ⟨hnew, hwarn⟩
  · rw [hwarn, if_pos (hlog.contains_iff.1 hold)]
  · rw [hwarn, if_neg]
    rw [← hlog.contains_iff, hnew]
    exact Bool.false_ne_true

theorem run_append (colour : Bool) (calls : List Call) (call : Call) :
    run colour (calls ++ [call]) = (run colour calls).step call := by
  rw [run, List.foldl_append]
  rfl

end Session

theorem contains_warn (console : Console) (warning : Warning) :
    (console.warn warning).2.log.contains warning = true := by
  rcases warn_eq console warning with ⟨hold, hwarn⟩ | ⟨_, hwarn⟩
  · rwa [hwarn]
  · rw [hwarn]
    exact Log.contains_insert _ _

/-- Warnings with different keys, none of which the log remembers, are all shown, also if there are
more of them than the log can hold. -/
theorem text_warnAll_of_nodup {console : Console} {warnings : List Warning}
    (hnodup : (warnings.map Warning.key).Nodup)
    (hnew : ∀ warning ∈ warnings, warning.key ∉ console.log.keys) :
    (console.warnAll warnings).1 = String.join (warnings.map (line console.colour)) := by
  induction warnings generalizing console with
  | nil => rfl
  | cons warning warnings ih =>
    obtain ⟨hfirst, hrest⟩ := List.forall_mem_cons.1 hnew
    obtain ⟨hother, hnodup⟩ := List.nodup_cons.1 hnodup
    have hnot : ¬console.log.contains warning = true := mt Log.contains_iff.1 hfirst
    have hwarn : console.warn warning =
        (line console.colour warning, { console with log := console.log.insert warning }) :=
      if_neg hnot
    simp only [warnAll, hwarn, List.map_cons, String.join_cons]
    rw [ih hnodup]
    intro next hnext hkey
    rcases Log.mem_keys_insert hkey with heq | hold
    · exact hother (heq ▸ List.mem_map_of_mem hnext)
    · exact hrest next hnext hold

theorem lineCount_join_lines (colour : Bool) (shown : List Warning) :
    lineCount (String.join (shown.map (line colour))) =
      shown.length + lineCount (String.join (shown.map content)) := by
  induction shown with
  | nil => rfl
  | cons warning shown ih =>
    simp only [List.map_cons, String.join_cons, lineCount_append, List.length_cons]
    rw [lineCount_line, ih]
    omega

/-- After any calls, the log holds the distinct keys of the last warnings shown, as many as the
number shown since the last clearing says; a warning prints its line exactly if its key is not one
of these, and is in the log after it was given. The text printed since the last clearing is that of
the warnings shown, each of which takes a line and one more for each line feed in it. -/
theorem log_run (colour : Bool) (calls : List Call) :
    let session := Session.run colour calls
    let log := session.console.log
    let p := session.shown.length
    let recent := (session.shown.take log.size).map Warning.key
    log.size = (if p = 0 then 0 else (p - 1) % 256 + 1) ∧
      log.keys = recent ∧ recent.length = log.size ∧ recent.Nodup ∧ log.size ≤ 256 ∧
      (∀ warning, log.contains warning = true ↔ warning.key ∈ recent) ∧
      (∀ warning, (session.console.warn warning).1 =
        if warning.key ∈ recent then "" else line colour warning) ∧
      (∀ warning, line colour warning ≠ "") ∧
      (∀ warning, (Session.run colour (calls ++ [.warn warning])).console.log.contains warning =
        true) ∧
      session.printed = String.join (session.shown.reverse.map (line colour)) ∧
      lineCount session.printed =
        p + lineCount (String.join (session.shown.reverse.map content)) := by
  intro session log p recent
  have h := Session.consistent_run colour calls
  have hnodup : recent.Nodup := by
    have hkeys := h.log.nodup
    rwa [h.log.keys] at hkeys
  refine ⟨h.log.size, h.log.keys, ?_, hnodup, h.log.size_le, fun _ => h.log.contains_iff,
    h.text_warn, line_ne_empty colour, ?_, h.printed, ?_⟩
  · exact (congrArg List.length h.log.keys).symm
  · intro warning
    rw [Session.run_append]
    exact contains_warn session.console warning
  · rw [h.printed, lineCount_join_lines, List.length_reverse]

end Console

end SelectorPath

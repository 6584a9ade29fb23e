import CommandShell.Proofs.LineReading

/-! Escape sequences that mean nothing to the editor. A sequence is followed key by key, with its
parameters piling up, until the key that ends it; whatever that key is, it is swallowed with the
rest. So the line is what it would be without such sequences, and only an interrupt can end it from
inside one. -/
namespace CommandShell.Editor

def isParameter (c : Char) : Bool :=
  Text.isDigit c || c == ';'

def actingKeys : List Char :=
  ['A', 'B', 'C', 'D', 'H', 'F']

/-- The keys of an escape sequence that is dropped: an escape and another key, or a sequence with
an introducer whose parameters or final key keep it from acting. -/
inductive Dropped : List Char → Prop
  | pair {x : Char} (introduces : x ≠ '[' ∧ x ≠ 'O') (quiet : x ≠ interruptKey) :
      Dropped [escapeKey, x]
  | sequence {introducer final : Char} (parameters : List Char)
      (introduces : introducer = '[' ∨ introducer = 'O')
      (continues : ∀ c ∈ parameters, isParameter c = true) (ends : isParameter final = false)
      (quiet : final ≠ interruptKey) (idle : parameters ≠ [] ∨ final ∉ actingKeys) :
      Dropped (escapeKey :: introducer :: (parameters ++ [final]))

/-- The keys are printable characters and dropped sequences one after the other, and `typed` is the
printable characters among them. -/
inductive TypedAmong : List Char → List Char → Prop
  | nil : TypedAmong [] []
  | typed {c : Char} {keys typed : List Char} (printable : Text.isPrintable c = true)
      (rest : TypedAmong keys typed) : TypedAmong (c :: keys) (c :: typed)
  | dropped {sequence keys typed : List Char} (drops : Dropped sequence)
      (rest : TypedAmong keys typed) : TypedAmong (sequence ++ keys) typed

structure Ready (editor : Editor) : Prop where
  state : editor.state = .editing
  escape : editor.escape = []
  calm : editor.tabPending = false

theorem start_ready (editor : Editor) (historyLength : Nat) (prompt : String) :
    (editor.start historyLength prompt).1.Ready :=
  ⟨rfl, rfl, rfl⟩

def inside (editor : Editor) (escape : List Char) : Editor :=
  { editor with state := .awaitingEscape, escape }

section

variable (history : List String) {editor : Editor}

theorem isParameter_ne_interrupt {c : Char} (parameter : isParameter c = true) :
    c ≠ interruptKey := by
  rintro rfl
  revert parameter
  decide

/-- Inside a sequence an interrupt is the only key that does not belong to it. -/
theorem feed_inside {c : Char} (escape : List Char) (quiet : c ≠ interruptKey) :
    (editor.inside escape).feed history c = (editor.inside escape).feedEscape history c := by
  simp [feed, inside, quiet]

theorem feed_inside_interrupt (escape : List Char) :
    (editor.inside escape).feed history interruptKey =
      ({ editor.inside escape with buffer := {}, state := .aborted }, "^C\n") := by
  simp [feed, inside]

namespace Ready

variable (ready : editor.Ready)

include ready

theorem feed_escape : editor.feed history escapeKey = (editor.inside [], "") := by
  obtain ⟨state, escape, calm⟩ := ready
  cases editor
  subst state escape calm
  rfl

/-- Leaving a sequence without acting. -/
theorem leave : { editor with state := .editing, escape := [] } = editor := by
  obtain ⟨state, escape, -⟩ := ready
  cases editor
  subst state escape
  rfl

end Ready

theorem feed_introducer {introducer : Char} (introduces : introducer = '[' ∨ introducer = 'O') :
    (editor.inside []).feed history introducer = (editor.inside [introducer], "") := by
  rcases introduces with rfl | rfl
  · rfl
  · rfl

theorem feed_parameter {c introducer : Char} (parameters : List Char)
    (parameter : isParameter c = true) :
    (editor.inside (introducer :: parameters)).feed history c =
      (editor.inside (introducer :: (parameters ++ [c])), "") := by
  rw [feed_inside history _ (isParameter_ne_interrupt parameter)]
  rw [isParameter] at parameter
  simp [feedEscape, inside, parameter]

/-- Any number of parameters piles up behind the introducer. -/
theorem feedAll_parameters {introducer : Char} (parameters : List Char) {more : List Char}
    (continues : ∀ c ∈ more, isParameter c = true) :
    (editor.inside (introducer :: parameters)).feedAll history more =
      (editor.inside (introducer :: (parameters ++ more)), "") := by
  induction more generalizing parameters with
  | nil => simp [feedAll]
  | cons c rest ih =>
    have first : isParameter c = true := continues c (by simp)
    have later : ∀ d ∈ rest, isParameter d = true := fun d member => continues d (by simp [member])
    rw [feedAll_cons, feed_parameter history parameters first, ih _ later]
    simp

namespace Ready

variable (ready : editor.Ready)

include ready

/-- The key that ends a sequence which does not act is swallowed, whatever it is. -/
theorem feed_final {introducer final : Char} {parameters : List Char}
    (ends : isParameter final = false) (quiet : final ≠ interruptKey)
    (idle : parameters ≠ [] ∨ final ∉ actingKeys) :
    (editor.inside (introducer :: parameters)).feed history final = (editor, "") := by
  rw [isParameter] at ends
  rw [feed_inside history _ quiet, feedEscape]
  simp only [inside, ends, Bool.false_eq_true, if_false]
  by_cases bare : parameters = []
  · have other : final ∉ actingKeys := idle.resolve_left (not_not_intro bare)
    simp only [actingKeys, List.mem_cons, List.not_mem_nil, or_false, not_or] at other
    simpa [bare, other] using ready.leave
  · simpa [bare] using ready.leave

theorem feedAll_introduced {introducer : Char} (introduces : introducer = '[' ∨ introducer = 'O')
    {parameters : List Char} (continues : ∀ c ∈ parameters, isParameter c = true) :
    editor.feedAll history (escapeKey :: introducer :: parameters) =
      (editor.inside (introducer :: parameters), "") := by
  rw [feedAll_cons, ready.feed_escape, feedAll_cons, feed_introducer history introduces,
    feedAll_parameters history [] continues]
  simp

/-- A dropped sequence leaves no trace. -/
theorem feedAll_dropped {sequence : List Char} (drops : Dropped sequence) :
    editor.feedAll history sequence = (editor, "") := by
  cases drops with
  | pair introduces quiet =>
    rw [feedAll_cons, ready.feed_escape, feedAll_cons, feed_inside history [] quiet]
    simpa [feedEscape, inside, introduces, feedAll] using ready.leave
  | sequence parameters introduces continues ends quiet idle =>
    rw [← List.cons_append, ← List.cons_append, feedAll_append,
      ready.feedAll_introduced history introduces continues, feedAll_cons,
      ready.feed_final history ends quiet idle]
    simp [feedAll]

/-- Between the first and the last key of a dropped sequence the editor waits for more of it. -/
theorem feedAll_part {sequence part : List Char} (drops : Dropped sequence)
    (starts : part <+: sequence) (nonempty : part ≠ []) (proper : part ≠ sequence) :
    ∃ escape, editor.feedAll history part = (editor.inside escape, "") := by
  have opened : ∃ escape, editor.feedAll history [escapeKey] = (editor.inside escape, "") :=
    ⟨[], by rw [feedAll_cons, ready.feed_escape]; simp [feedAll]⟩
  obtain ⟨first, more, rfl⟩ := List.exists_cons_of_ne_nil nonempty
  cases drops with
  | pair introduces quiet =>
    obtain ⟨rfl, rest⟩ := List.cons_prefix_cons.mp starts
    rcases List.prefix_cons_iff.mp rest with rfl | ⟨after, rfl, none⟩
    · exact opened
    · exact absurd (by rw [List.prefix_nil.mp none]) proper
  | sequence parameters introduces continues ends quiet idle =>
    obtain ⟨rfl, rest⟩ := List.cons_prefix_cons.mp starts
    rcases List.prefix_cons_iff.mp rest with rfl | ⟨after, rfl, within⟩
    · exact opened
    · have short : after <+: parameters := by
        refine (List.prefix_concat_iff.mp within).resolve_left ?_
        rintro rfl
        exact proper rfl
      exact ⟨_, ready.feedAll_introduced history introduces fun c member =>
        continues c (short.subset member)⟩

theorem feed_printable {c : Char} (printable : Text.isPrintable c = true) :
    (editor.feed history c).1.Ready := by
  rw [Editor.feed_printable history ready.state printable]
  exact ⟨ready.state, ready.escape, rfl⟩

end Ready

/-- The dropped sequences among the keys change nothing that the printable characters do. -/
theorem TypedAmong.feedAll {keys typed : List Char} (among : TypedAmong keys typed)
    (ready : editor.Ready) :
    editor.feedAll history keys = editor.feedAll history typed ∧
      (editor.feedAll history keys).1.Ready := by
  induction among generalizing editor with
  | nil => exact ⟨rfl, ready⟩
  | typed printable _ ih =>
    obtain ⟨same, still⟩ := ih (ready.feed_printable history printable)
    rw [feedAll_cons, feedAll_cons, same]
    exact ⟨rfl, same ▸ still⟩
  | dropped drops _ ih =>
    rw [feedAll_append, ready.feedAll_dropped history drops]
    simpa using ih ready

end

/-- Escape sequences that mean nothing to the editor leave no trace: after any keys that are
printable characters and such sequences, the line is being edited and all of the editor, and all
that was written, is as if only the printable characters had been typed. Inside any of the sequences
an interrupt aborts the line. -/
theorem dropped_sequences_leave_no_trace (editor : Editor) (prompt : String)
    (history : List String) {keys typed : List Char} (among : TypedAmong keys typed) :
    let begun := (editor.start history.length prompt).1
    let plain := begun.feedAll history typed
    begun.feedAll history keys = plain ∧ plain.1.state = .editing ∧
    ∀ sequence part, Dropped sequence → part <+: sequence → part ≠ [] → part ≠ sequence →
      let stopped := begun.feedAll history (keys ++ part ++ [interruptKey])
      stopped.1.state = .aborted ∧ stopped.1.result = some "" ∧ stopped.1.buffer = {} ∧
        stopped.1.position = plain.1.position ∧ stopped.2 = plain.2 ++ "^C\n" := by
  intro begun plain
  have begins : begun.Ready := start_ready editor history.length prompt
  obtain ⟨same, ready⟩ := among.feedAll history begins
  rw [same] at ready
  refine ⟨same, ready.state, ?_⟩
  intro sequence part drops starts nonempty proper
  obtain ⟨escape, waits⟩ := ready.feedAll_part history drops starts nonempty proper
  have stops : begun.feedAll history (keys ++ part ++ [interruptKey]) =
      ({ plain.1.inside escape with buffer := {}, state := .aborted }, plain.2 ++ "^C\n") := by
    rw [List.append_assoc, feedAll_append, same, feedAll_append, waits, feedAll_cons,
      feed_inside_interrupt]
    simp [feedAll, plain]
  rw [stops]
  exact ⟨rfl, rfl, rfl, rfl, rfl⟩

def deleteKeys : List Char :=
  [escapeKey, '[', '3', '~']

def controlUpKeys : List Char :=
  [escapeKey, '[', '1', ';', '5', 'A']

/-- Types `ls -l` with keys in between that are not bound, some of them ended by keys that would
finish the line on their own. -/
def noisyKeys : List Char :=
  'l' :: 's' :: (deleteKeys ++ ' ' :: (controlUpKeys ++ ([escapeKey, '\r'] ++ '-' ::
    ([escapeKey, 'O', endKey] ++ ['l']))))

theorem deleteKeys_dropped : Dropped deleteKeys :=
  .sequence ['3'] (.inl rfl) (List.all_eq_true.mp (by decide)) (by decide)
    (by decide) (.inl (by decide))

theorem controlUpKeys_dropped : Dropped controlUpKeys :=
  .sequence ['1', ';', '5'] (.inl rfl) (List.all_eq_true.mp (by decide)) (by decide)
    (by decide) (.inl (by decide))

theorem noisyKeys_typedAmong : TypedAmong noisyKeys "ls -l".toList := by
  have enter : Dropped [escapeKey, '\r'] := .pair (by decide) (by decide)
  have ended : Dropped [escapeKey, 'O', endKey] :=
    .sequence [] (.inr rfl) (by simp) (by decide) (by decide) (.inr (by decide))
  have printable : Text.isPrintable 'l' = true ∧ Text.isPrintable 's' = true ∧
      Text.isPrintable ' ' = true ∧ Text.isPrintable '-' = true := by decide +kernel
  obtain ⟨l, s, blank, dash⟩ := printable
  have option : TypedAmong _ ['-', 'l'] := .typed dash (.dropped ended (.typed l .nil))
  have argument : TypedAmong _ [' ', '-', 'l'] :=
    .typed blank (.dropped controlUpKeys_dropped (.dropped enter option))
  exact .typed l (.typed s (.dropped deleteKeys_dropped argument))

theorem dropped_sequences_leave_no_trace_noisy :
    let begun := ((new 1 none).start ["pwd"].length "$ ").1
    TypedAmong noisyKeys "ls -l".toList ∧ Dropped controlUpKeys ∧
      (begun.feedAll ["pwd"] noisyKeys).1.buffer = .ofText "ls -l" ∧
      (begun.feedAll ["pwd"] noisyKeys).2 = "ls -l" ∧
      (begun.feedAll ["pwd"] (noisyKeys ++ [escapeKey, '[', '1', ';'] ++ [interruptKey])).2 =
        "ls -l^C\n" := by
  intro begun
  have typed : (begun.feedAll ["pwd"] "ls -l".toList).1.buffer = .ofText "ls -l" ∧
      (begun.feedAll ["pwd"] "ls -l".toList).2 = "ls -l" := by decide +kernel
  obtain ⟨same, -, stops⟩ :=
    dropped_sequences_leave_no_trace (new 1 none) "$ " ["pwd"] noisyKeys_typedAmong
  obtain ⟨-, -, -, -, written⟩ := stops controlUpKeys [escapeKey, '[', '1', ';']
    controlUpKeys_dropped (by decide) (by decide) (by decide)
  refine ⟨noisyKeys_typedAmong, controlUpKeys_dropped, ?_, ?_, ?_⟩
  · rw [same, typed.1]
  · rw [same, typed.2]
  · rw [written, typed.2]
    rfl

end CommandShell.Editor

import Mathlib.Data.List.Sort
import CommandShell.Proofs.EditorScreen
import CommandShell.Proofs.NameExtension

/-! What completing a word comes to. The outcome is decided by the names that start with the word:
by how many they are, and by how far they agree. An extension takes the word to the end of what the
names share, so the next Tab finds nothing more to add and the one after it lists them. -/
namespace CommandShell

theorem LongestShared.unique {names : List String} {first second : String}
    (one : LongestShared names first) (two : LongestShared names second) : first = second := by
  have short := two.longest first one.shared
  have long := one.longest second two.shared
  exact String.toList_inj.mp (short.eq_of_length_le long.length_le)

structure Lists (names : List String) (start : String) (found : List String) : Prop where
  sorted : found.Pairwise fun first second => Precedes first.toList second.toList
  mem : ∀ name, name ∈ found ↔ name ∈ names ∧ start.toList <+: name.toList

namespace Lists

variable {names found other : List String} {start : String}

theorem unique (one : Lists names start found) (two : Lists names start other) : found = other := by
  have : Std.Asymm fun c d : Char => c.toNat < d.toNat := ⟨fun _ _ => Nat.lt_asymm⟩
  have : Std.Asymm fun first second : String => Precedes first.toList second.toList :=
    ⟨fun _ _ => Std.Asymm.asymm (r := List.Lex fun c d : Char => c.toNat < d.toNat) _ _⟩
  exact one.sorted.eq_of_mem_iff two.sorted fun name => (one.mem name).trans (two.mem name).symm

/-- The names that start with a longer word are the same if they all share it. -/
theorem extend (lists : Lists names start found) {word : String}
    (longer : start.toList <+: word.toList)
    (shared : ∀ name ∈ found, word.toList <+: name.toList) : Lists names word found := by
  refine ⟨lists.sorted, fun name => ?_⟩
  constructor
  · intro member
    exact ⟨((lists.mem name).mp member).1, shared name member⟩
  · rintro ⟨known, starts⟩
    exact (lists.mem name).mpr ⟨known, longer.trans starts⟩

end Lists

theorem NameIndex.matching_lists (names : List String) (start : String) :
    Lists names start ((ofNames names).matching start) :=
  ⟨matching_sorted names start, mem_matching names start⟩

/-- The index finds the names that start with some letters and adds what takes the letters to the
longest text that these names share. -/
theorem NameIndex.extension_lists {names found : List String} {start : String}
    (lists : Lists names start found) (some : found ≠ []) :
    ∃ text, (ofNames names).extension start = (text, found) ∧
      LongestShared found (start ++ text) := by
  obtain rfl := lists.unique (matching_lists names start)
  cases below : (ofNames names).tree.below? start.toList with
  | none => exact absurd (by rw [matching, below]) some
  | some part =>
    obtain ⟨name, member⟩ := List.exists_mem_of_ne_nil _ some
    obtain ⟨rest, held, -⟩ := (mem_matching_iff_holds below name).mp member
    refine ⟨String.ofList part.onlyWay, by rw [extension, below], ?_⟩
    exact longestShared_below below (NameTree.fruitful_of_holds held)

/-- The outcome that completing a word must have, given the names that start with it. -/
inductive Completes (names : List String) (word : String) : Completion → Prop
  | none (nobody : ∀ name ∈ names, ¬ word.toList <+: name.toList) : Completes names word .none
  | unique {insertion name : String}
      (only : ∀ other, other ∈ names ∧ word.toList <+: other.toList ↔ other = name)
      (whole : word ++ insertion = name ++ " ") : Completes names word (.unique insertion name)
  | extended {insertion : String} {found : List String} (several : 1 < found.length)
      (all : Lists names word found) (shared : LongestShared found (word ++ insertion))
      (longer : insertion ≠ "") : Completes names word (.extended insertion found)
  | ambiguous {found : List String} (several : 1 < found.length) (all : Lists names word found)
      (shared : LongestShared found word) : Completes names word (.ambiguous found)

namespace Completer

variable {completer : Completer} {names found : List String} {word : String}

theorem complete_blank (broken : ¬ ∀ c ∈ word.toList, Text.isBlank c = false) :
    completer.complete word = .none := by
  have blank : word.toList.any Text.isBlank = true := by simpa using broken
  simp [complete, blank]

variable (indexed : completer.index = .ofNames names)

include indexed

theorem complete_nobody (lists : Lists names word []) : completer.complete word = .none := by
  have found := (NameIndex.matching_lists names word).unique lists
  rw [← indexed, ← extension_names] at found
  simp [complete, found]

variable (nonempty : word ≠ "") (unbroken : ∀ c ∈ word.toList, Text.isBlank c = false)

include nonempty unbroken

theorem complete_single {name : String} (lists : Lists names word [name]) :
    ∃ insertion, completer.complete word = .unique insertion name ∧
      word ++ insertion = name ++ " " := by
  obtain ⟨text, extension, shared⟩ := NameIndex.extension_lists lists (by simp)
  have whole : name = word ++ text :=
    LongestShared.unique ⟨by simp, fun other part => part name (by simp)⟩ shared
  refine ⟨text ++ " ", ?_, by rw [whole, String.append_assoc]⟩
  simpa [complete, nonempty, indexed, extension] using unbroken

theorem complete_several {text : String} (lists : Lists names word found)
    (several : 1 < found.length) (shared : LongestShared found (word ++ text)) :
    completer.complete word = if text = "" then .ambiguous found else .extended text found := by
  rcases found with _ | ⟨first, _ | ⟨second, rest⟩⟩
  · simp at several
  · simp at several
  · obtain ⟨added, extension, reached⟩ := NameIndex.extension_lists lists (by simp)
    obtain rfl : text = added := (String.append_right_inj word).mp (shared.unique reached)
    have plain : ¬ (decide (word = "") || word.toList.any Text.isBlank) = true := by
      simpa [nonempty] using unbroken
    rw [complete, if_neg plain, indexed, extension]

/-- The outcome of completing a word is the one that the names which start with it call for. -/
theorem complete_iff (outcome : Completion) :
    completer.complete word = outcome ↔ Completes names word outcome := by
  constructor
  · rintro rfl
    have lists := NameIndex.matching_lists names word
    cases found : (NameIndex.ofNames names).matching word with
    | nil =>
      rw [found] at lists
      rw [complete_nobody indexed lists]
      refine .none fun name known starts => ?_
      exact List.not_mem_nil ((lists.mem name).mpr ⟨known, starts⟩)
    | cons first rest =>
      rw [found] at lists
      cases rest with
      | nil =>
        obtain ⟨insertion, single, whole⟩ := complete_single indexed nonempty unbroken lists
        rw [single]
        refine .unique (fun other => ?_) whole
        rw [← lists.mem, List.mem_singleton]
      | cons second rest =>
        obtain ⟨text, -, shared⟩ := NameIndex.extension_lists lists (by simp)
        have several : 1 < (first :: second :: rest).length := by simp
        rw [complete_several indexed nonempty unbroken lists several shared]
        split
        next none =>
          rw [none, String.append_empty] at shared
          exact .ambiguous several lists shared
        next some => exact .extended several lists shared some
  · intro completes
    cases completes with
    | none nobody =>
      refine complete_nobody indexed ⟨.nil, fun name => ?_⟩
      simpa using nobody name
    | unique only whole =>
      have lists : Lists names word [_] := ⟨List.pairwise_singleton .., fun other => by
        rw [only other, List.mem_singleton]⟩
      obtain ⟨insertion, single, whole'⟩ := complete_single indexed nonempty unbroken lists
      rw [single, (String.append_right_inj word).mp (whole.trans whole'.symm)]
    | extended several all shared longer =>
      rw [complete_several indexed nonempty unbroken all several shared, if_neg longer]
    | ambiguous several all shared =>
      rw [← String.append_empty (s := word)] at shared
      rw [complete_several indexed nonempty unbroken all several shared, if_pos rfl]

/-- An extension takes the word to where nothing can be added without a choice. -/
theorem complete_extended {insertion : String}
    (outcome : completer.complete word = .extended insertion found)
    (plain : ∀ c ∈ (word ++ insertion).toList, Text.isBlank c = false) :
    completer.complete (word ++ insertion) = .ambiguous found := by
  have completes := (complete_iff indexed nonempty unbroken _).mp outcome
  cases completes with
  | extended several all shared longer =>
    have longWord : word ++ insertion ≠ "" := by simp [nonempty]
    have lists : Lists names (word ++ insertion) found := by
      refine all.extend ?_ shared.shared
      rw [String.toList_append]
      exact List.prefix_append _ _
    exact (complete_iff indexed longWord plain _).mpr (.ambiguous several lists shared)

end Completer

namespace Editor

structure AtWord (editor : Editor) (completer : Completer) (word : String) : Prop where
  known : editor.completer = some completer
  state : editor.state = .editing
  buffer : editor.buffer = .ofText word

namespace AtWord

variable {editor : Editor} {completer : Completer} {word insertion : String} {found : List String}
  (history : List String)

theorem atEnd (typed : editor.AtWord completer word) : editor.buffer.atEnd = true := by
  simp [typed.buffer, EditBuffer.ofText, EditBuffer.atEnd]

theorem text (typed : editor.AtWord completer word) : editor.buffer.text = word := by
  simp [typed.buffer, EditBuffer.ofText, EditBuffer.text]

theorem feed_tab (typed : editor.AtWord completer word) :
    editor.feed history '\t' = editor.complete := by
  simp [Editor.feed, feedKey, typed.state, interruptKey, isEnter, endKey, isBackspace]

theorem redrawn (typed : editor.AtWord completer word) :
    editor.redrawn = clearLine ++ editor.prompt ++ word := by
  have back : editor.buffer.length - editor.buffer.cursor = 0 := by
    simp [typed.buffer, EditBuffer.length, EditBuffer.ofText]
  simp [Editor.redrawn, back, typed.text]

theorem tab_extended (typed : editor.AtWord completer word)
    (outcome : completer.complete word = .extended insertion found) :
    ∃ next : Editor, editor.feed history '\t' = (next, insertion) ∧
      next.AtWord completer (word ++ insertion) ∧ next.tabPending = false ∧
      next.prompt = editor.prompt := by
  have inserted : editor.buffer.insert insertion.toList = .ofText (word ++ insertion) := by
    simp [typed.buffer, EditBuffer.insert, EditBuffer.ofText]
  refine ⟨{ editor with tabPending := false, buffer := .ofText (word ++ insertion) }, ?_,
    ⟨typed.known, typed.state, rfl⟩, rfl, rfl⟩
  simp [typed.feed_tab, Editor.complete, typed.known, typed.atEnd, typed.text, outcome,
    Editor.insert, inserted]

/-- The first of two Tabs asks and the second one lists. -/
theorem tab_ambiguous (typed : editor.AtWord completer word)
    (outcome : completer.complete word = .ambiguous found) :
    ∃ next : Editor, editor.feed history '\t' = (next, if editor.tabPending then
        "\n" ++ "  ".intercalate found ++ "\n" ++ (clearLine ++ editor.prompt ++ word) else bell) ∧
      next.AtWord completer word ∧ next.tabPending = !editor.tabPending ∧
      next.prompt = editor.prompt := by
  have kept (pending : Bool) : AtWord { editor with tabPending := pending } completer word :=
    ⟨typed.known, typed.state, typed.buffer⟩
  refine ⟨{ editor with tabPending := !editor.tabPending }, ?_, kept _, rfl, rfl⟩
  have drawn := (kept false).redrawn
  rw [typed.known] at drawn
  rw [typed.feed_tab, Editor.complete, typed.known, typed.atEnd]
  simp only [typed.text, outcome, drawn]
  cases editor.tabPending with
  | false => rfl
  | true => rfl

theorem tab_none (typed : editor.AtWord completer word)
    (outcome : completer.complete word = .none) : editor.feed history '\t' = (editor, bell) := by
  simp [typed.feed_tab, Editor.complete, typed.known, typed.atEnd, typed.text, outcome]

/-- Where there is nothing to add, any number of Tabs adds nothing. -/
theorem tabs (typed : editor.AtWord completer word)
    (settled : completer.complete word = .none ∨
      ∃ found, completer.complete word = .ambiguous found) (count : Nat) :
    (editor.feedAll history (List.replicate count '\t')).1.AtWord completer word := by
  induction count generalizing editor with
  | zero => exact typed
  | succ count ih =>
    rw [List.replicate_succ, feedAll_cons]
    apply ih
    rcases settled with nobody | ⟨found, several⟩
    · rw [typed.tab_none history nobody]
      exact typed
    · obtain ⟨next, fed, kept, -⟩ := typed.tab_ambiguous history several
      rwa [fed]

/-- The Tab that extends a word is the last one that changes the line. -/
theorem tabs_extended (typed : editor.AtWord completer word)
    (outcome : completer.complete word = .extended insertion found)
    (settled : completer.complete (word ++ insertion) = .none ∨
      ∃ found, completer.complete (word ++ insertion) = .ambiguous found) (count : Nat) :
    (editor.feedAll history (List.replicate (count + 1) '\t')).1.buffer =
      .ofText (word ++ insertion) := by
  obtain ⟨next, fed, extended, -⟩ := typed.tab_extended history outcome
  rw [List.replicate_succ, feedAll_cons, fed]
  exact (extended.tabs history settled count).buffer

/-- The first Tab extends the word, the second rings and the third lists the names. -/
theorem three_tabs (typed : editor.AtWord completer word)
    (outcome : completer.complete word = .extended insertion found)
    (next : completer.complete (word ++ insertion) = .ambiguous found) :
    (editor.feedAll history ['\t', '\t', '\t']).2 = insertion ++ bell ++ "\n" ++
      "  ".intercalate found ++ "\n" ++ clearLine ++ editor.prompt ++ word ++ insertion := by
  obtain ⟨first, fed, extended, calm, prompted⟩ := typed.tab_extended history outcome
  obtain ⟨second, rung, kept, pending, prompted'⟩ := extended.tab_ambiguous history next
  obtain ⟨third, listed, -⟩ := kept.tab_ambiguous history next
  rw [calm] at rung pending
  rw [pending, prompted', prompted] at listed
  rw [feedAll_cons, fed, feedAll_cons, rung, feedAll_cons, listed]
  simp [feedAll, String.append_assoc]

end AtWord

end Editor

/-- Completing a word without blanks has the outcome that the names which start with it call for:
nothing, the one name and a blank, the longest text that the names share, or the choice between
them. After an extension there is no other one: if the word is still without blanks the same names
are left to choose from, and the Tabs that follow list them and leave the line as it is. -/
theorem completion_exact_and_settles {completer : Completer} {names : List String}
    (indexed : completer.index = .ofNames names) {word : String} (nonempty : word ≠ "")
    (unbroken : ∀ c ∈ word.toList, Text.isBlank c = false) :
    (∀ outcome, completer.complete word = outcome ↔ Completes names word outcome) ∧
    ∀ insertion found, completer.complete word = .extended insertion found →
      ((∀ c ∈ (word ++ insertion).toList, Text.isBlank c = false) →
        completer.complete (word ++ insertion) = .ambiguous found) ∧
      ∀ (editor : Editor) (history : List String), editor.AtWord completer word →
        (∀ count, (editor.feedAll history (List.replicate (count + 1) '\t')).1.buffer =
          .ofText (word ++ insertion)) ∧
        ((∀ c ∈ (word ++ insertion).toList, Text.isBlank c = false) →
          (editor.feedAll history ['\t', '\t', '\t']).2 = insertion ++ Editor.bell ++ "\n" ++
            "  ".intercalate found ++ "\n" ++ Editor.clearLine ++ editor.prompt ++ word ++
            insertion) := by
  refine ⟨Completer.complete_iff indexed nonempty unbroken, ?_⟩
  intro insertion found outcome
  have next (plain : ∀ c ∈ (word ++ insertion).toList, Text.isBlank c = false) :
      completer.complete (word ++ insertion) = .ambiguous found :=
    Completer.complete_extended indexed nonempty unbroken outcome plain
  have settled : completer.complete (word ++ insertion) = .none ∨
      ∃ found, completer.complete (word ++ insertion) = .ambiguous found := by
    by_cases plain : ∀ c ∈ (word ++ insertion).toList, Text.isBlank c = false
    · exact .inr ⟨found, next plain⟩
    · exact .inl (Completer.complete_blank plain)
  refine ⟨next, fun editor history typed => ⟨?_, ?_⟩⟩
  · exact typed.tabs_extended history outcome settled
  · intro plain
    exact typed.three_tabs history outcome (next plain)

def nestedNames : Completer :=
  Completer.ofBuiltins ["echoes", "exit", "echo"]

def nestedEditor : Editor :=
  { prompt := "$ ", buffer := .ofText "ec", state := .editing, position := ⟨0, ""⟩,
    completer := some nestedNames }

/-- The first Tab stops at a name that another one continues. -/
theorem completion_exact_and_settles_nested :
    nestedNames.index = .ofNames ["echoes", "exit", "echo"] ∧ "ec" ≠ "" ∧
    (∀ c ∈ "ec".toList, Text.isBlank c = false) ∧
    Completes ["echoes", "exit", "echo"] "ec" (.extended "ho" ["echo", "echoes"]) ∧
    nestedNames.complete "echo" = .ambiguous ["echo", "echoes"] ∧
    nestedEditor.AtWord nestedNames "ec" ∧
    (nestedEditor.feedAll [] ['\t', '\t', '\t']).2 =
      "ho\x07\necho  echoes\n\r\x1b[K$ echo" := by
  have plain : "ec".toList.all (fun c => !Text.isBlank c) = true := by decide
  have longer : "echo".toList.all (fun c => !Text.isBlank c) = true := by decide
  have unbroken : ∀ c ∈ "ec".toList, Text.isBlank c = false := by
    simpa only [List.all_eq_true, Bool.not_eq_true'] using plain
  have still : ∀ c ∈ "echo".toList, Text.isBlank c = false := by
    simpa only [List.all_eq_true, Bool.not_eq_true'] using longer
  have outcome : nestedNames.complete "ec" = .extended "ho" ["echo", "echoes"] := by decide +kernel
  have typed : nestedEditor.AtWord nestedNames "ec" := ⟨rfl, rfl, rfl⟩
  obtain ⟨settles, later⟩ := @completion_exact_and_settles nestedNames ["echoes", "exit", "echo"]
    rfl "ec" (by decide) unbroken
  obtain ⟨next, keys⟩ := later _ _ outcome
  have listed := (keys nestedEditor [] typed).2 still
  exact ⟨rfl, by decide, unbroken, (settles _).mp outcome, next still, typed, listed⟩

end CommandShell

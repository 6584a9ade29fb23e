import CommandShell.Proofs.Running
import CommandShell.Proofs.Utf8Spelling

/-! Reading input line by line. The bytes are cut after each newline and every piece is decoded on
its own; nothing is lost or changed by that, since a newline never belongs to another character
and ends whatever is broken before it. -/
namespace CommandShell

def inputLines (bytes : Bytes) : List String :=
  (cutInput [] [] bytes).map fun piece => String.ofList (Text.decodeReplacing piece.1)

theorem cutInput_earlier (done : List (Bytes × Bytes)) (line bytes : Bytes) :
    cutInput done line bytes = done.reverse ++ cutInput [] line bytes := by
  induction bytes generalizing done line with
  | nil =>
    simp only [cutInput]
    split <;> simp
  | cons b rest ih =>
    simp only [cutInput]
    split
    · rw [ih, ih [_]]
      simp
    · exact ih done (b :: line)

theorem cutInput_unbroken {bytes : Bytes} (unbroken : 0x0a ∉ bytes) (line : Bytes) :
    cutInput [] line bytes =
      if line.reverse ++ bytes = [] then [] else [(line.reverse ++ bytes, [])] := by
  induction bytes generalizing line with
  | nil => by_cases empty : line = [] <;> simp [cutInput, empty]
  | cons b rest ih =>
    rw [List.mem_cons, not_or] at unbroken
    rw [cutInput, if_neg (Ne.symm unbroken.1), ih unbroken.2]
    simp

theorem cutInput_newline {first : Bytes} (unbroken : 0x0a ∉ first) (line rest : Bytes) :
    cutInput [] line (first ++ 0x0a :: rest) =
      (line.reverse ++ first ++ [0x0a], rest) :: cutInput [] [] rest := by
  induction first generalizing line with
  | nil =>
    rw [List.nil_append, cutInput, if_pos rfl, cutInput_earlier]
    simp
  | cons b first ih =>
    rw [List.mem_cons, not_or] at unbroken
    rw [List.cons_append, cutInput, if_neg (Ne.symm unbroken.1), ih unbroken.2]
    simp

/-- Bytes are a line and further bytes, or they are the last line, which has no newline. -/
@[elab_as_elim]
theorem byLines {motive : Bytes → Prop} (last : ∀ bytes, 0x0a ∉ bytes → motive bytes)
    (line : ∀ first rest, 0x0a ∉ first → motive rest → motive (first ++ 0x0a :: rest))
    (bytes : Bytes) : motive bytes := by
  induction length : bytes.length using Nat.strongRecOn generalizing bytes with
  | ind n ih =>
    by_cases broken : 0x0a ∈ bytes
    · obtain ⟨first, rest, rfl, unbroken⟩ := List.eq_append_cons_of_mem broken
      rw [List.length_append, List.length_cons] at length
      exact line first rest unbroken (ih rest.length (by omega) rest rfl)
    · exact last bytes broken

theorem inputLines_last {bytes : Bytes} (unbroken : 0x0a ∉ bytes) :
    inputLines bytes =
      if bytes = [] then [] else [String.ofList (Text.decodeReplacing bytes)] := by
  rw [inputLines, cutInput_unbroken unbroken]
  by_cases empty : bytes = [] <;> simp [empty]

theorem inputLines_newline {first : Bytes} (unbroken : 0x0a ∉ first) (rest : Bytes) :
    inputLines (first ++ 0x0a :: rest) =
      String.ofList (Text.decodeReplacing first ++ ['\n']) :: inputLines rest := by
  have ended : Text.decodeReplacing (first ++ [0x0a]) = Text.decodeReplacing first ++ ['\n'] :=
    Text.decodeReplacing_newline first []
  rw [inputLines, cutInput_newline unbroken, List.map_cons, List.reverse_nil, List.nil_append,
    ended, inputLines]

/-- What the lines hold together is what the bytes decode to as a whole. -/
theorem flatMap_inputLines (bytes : Bytes) :
    (inputLines bytes).flatMap String.toList = Text.decodeReplacing bytes := by
  induction bytes using byLines with
  | last bytes unbroken =>
    rw [inputLines_last unbroken]
    split
    next empty =>
      rw [empty]
      rfl
    · simp
  | line first rest unbroken ih =>
    rw [inputLines_newline unbroken, List.flatMap_cons, ih, Text.decodeReplacing_newline]
    simp

/-- A line is not empty, and has a newline at its end only. -/
theorem inputLines_single {bytes : Bytes} {line : String} (member : line ∈ inputLines bytes) :
    line ≠ "" ∧ '\n' ∉ line.toList.dropLast := by
  induction bytes using byLines with
  | last bytes unbroken =>
    have free := Text.newline_not_mem_decodeReplacing unbroken
    rw [inputLines_last unbroken] at member
    split at member
    · cases member
    next given =>
      obtain rfl := List.mem_singleton.mp member
      rw [String.toList_ofList]
      refine ⟨?_, fun inside => free (List.dropLast_subset _ inside)⟩
      intro empty
      have letters := congrArg String.toList empty
      rw [String.toList_ofList] at letters
      exact given (Text.eq_nil_of_decodeReplacing letters)
  | line first rest unbroken ih =>
    have free := Text.newline_not_mem_decodeReplacing unbroken
    rw [inputLines_newline unbroken] at member
    rcases List.mem_cons.mp member with rfl | later
    · rw [String.toList_ofList, List.dropLast_concat]
      refine ⟨?_, free⟩
      intro empty
      simpa using congrArg String.toList empty
    · exact ih later

/-- Every line but the last is ended by a newline. -/
theorem inputLines_ended {bytes : Bytes} {line : String}
    (member : line ∈ (inputLines bytes).dropLast) : line.toList.getLast? = some '\n' := by
  induction bytes using byLines with
  | last bytes unbroken =>
    rw [inputLines_last unbroken] at member
    split at member <;> cases member
  | line first rest unbroken ih =>
    rw [inputLines_newline unbroken] at member
    cases later : inputLines rest with
    | nil =>
      rw [later] at member
      cases member
    | cons next lines =>
      rw [later, List.dropLast_cons_cons, ← later] at member
      rcases List.mem_cons.mp member with rfl | inside
      · simp
      · exact ih inside

theorem flatMap_encodeText (lines : List String) :
    lines.flatMap Text.encodeText = Text.encode (lines.flatMap String.toList) := by
  induction lines with
  | nil => rfl
  | cons line lines ih =>
    rw [List.flatMap_cons, List.flatMap_cons, Text.encode_append, ih, Text.encodeText]

/-- After the last line nothing is left. -/
theorem cutInput_left (bytes : Bytes) :
    ((cutInput [] [] bytes).getLast?.map Prod.snd).getD bytes = [] := by
  induction bytes using byLines with
  | last bytes unbroken =>
    rw [cutInput_unbroken unbroken]
    by_cases empty : bytes = [] <;> simp [empty]
  | line first rest unbroken ih =>
    rw [cutInput_newline unbroken, List.getLast?_cons, Option.map_some, Option.getD_some]
    cases later : (cutInput [] [] rest).getLast? with
    | none => simpa [later] using ih
    | some piece => simpa [later] using ih

namespace CommandM

def noting (note : Nat → String → Sink → Sink) (number : Nat) (line : String) : CommandM Unit :=
  modify fun frame => { frame with out := note number line frame.out }

theorem run_forPieces_noting (note : Nat → String → Sink → Sink) (number : Nat)
    (pieces : List (Bytes × Bytes)) (frame : Frame) :
    (forPieces (noting note) number pieces).run frame = (.ok (), { frame with
      input := { frame.input with
        rest := (pieces.getLast?.map Prod.snd).getD frame.input.rest }
      out := ((pieces.map fun piece => String.ofList (Text.decodeReplacing piece.1)).zipIdx
        number).foldl (fun out line => note line.2 line.1 out) frame.out }) := by
  induction pieces generalizing number frame with
  | nil => rfl
  | cons piece pieces ih =>
    obtain ⟨line, rest⟩ := piece
    have left : (((line, rest) :: pieces).getLast?.map Prod.snd).getD frame.input.rest =
        (pieces.getLast?.map Prod.snd).getD rest := by
      rw [List.getLast?_cons]
      cases pieces.getLast? <;> rfl
    rw [left, List.map_cons, List.zipIdx_cons, List.foldl_cons]
    exact ih (number + 1) _

theorem run_forLines_noting (note : Nat → String → Sink → Sink) (bytes : Bytes) (frame : Frame) :
    (forLines (noting note)).run { frame with input := ⟨bytes, false⟩ } =
      (.ok (), { frame with
        input := ⟨[], false⟩
        out := ((inputLines bytes).zipIdx 1).foldl (fun out line => note line.2 line.1 out)
          frame.out }) := by
  rw [forLines, run_get_bind]
  have run := run_forPieces_noting note 1 (cutInput [] [] bytes)
    { frame with input := ⟨bytes, false⟩ }
  rw [cutInput_left] at run
  exact run

theorem run_write_memory (text : String) (frame : Frame) (earlier : List Bytes) :
    (write text).run { frame with out := .memory earlier } =
      (.ok (), { frame with out := .memory (Text.encodeText text :: earlier) }) :=
  rfl

end CommandM

/-- A command that reads its input is given all of it, line by line: the lines hold together what
the bytes decode to as a whole, each ends at its newline, and they spell the bytes again just when
these are the encoding of a text. So a text that is written is read back as it was. -/
theorem input_lines_lossless (bytes : Bytes) (frame : Frame) :
    (∀ note, (CommandM.forLines (CommandM.noting note)).run
        { frame with input := ⟨bytes, false⟩ } =
      (.ok (), { frame with
        input := ⟨[], false⟩
        out := ((inputLines bytes).zipIdx 1).foldl (fun out line => note line.2 line.1 out)
          frame.out })) ∧
    String.join (inputLines bytes) = String.ofList (Text.decodeReplacing bytes) ∧
    (∀ line ∈ (inputLines bytes).dropLast, line.toList.getLast? = some '\n') ∧
    (∀ line ∈ inputLines bytes, line ≠ "" ∧ '\n' ∉ line.toList.dropLast) ∧
    ((Text.decodeStrict? bytes).isSome = true ↔
      (inputLines bytes).flatMap Text.encodeText = bytes) ∧
    ∀ (text : String) (earlier : List Bytes),
      (CommandM.write text).run { frame with out := .memory earlier } =
        (.ok (), { frame with out := .memory (Text.encodeText text :: earlier) }) ∧
      String.join (inputLines (Text.encodeText text)) = text := by
  have joined (bytes : Bytes) :
      String.join (inputLines bytes) = String.ofList (Text.decodeReplacing bytes) := by
    rw [← String.toList_inj, String.toList_join, String.toList_ofList, flatMap_inputLines]
  refine ⟨fun note => CommandM.run_forLines_noting note bytes frame, joined bytes,
    fun line => inputLines_ended, fun line => inputLines_single, ?_, ?_⟩
  · rw [flatMap_encodeText, flatMap_inputLines, Option.isSome_iff_exists]
    constructor
    · rintro ⟨text, valid⟩
      rw [Text.decodeStrict?_eq_some_iff] at valid
      rw [valid, Text.decodeReplacing_encode]
    · intro same
      exact ⟨_, Text.decodeStrict?_eq_some_iff.mpr same.symm⟩
  · intro text earlier
    refine ⟨CommandM.run_write_memory text frame earlier, ?_⟩
    rw [joined, Text.encodeText, Text.decodeReplacing_encode, String.ofList_toList]

/-- A newline stands in the middle of a character, and a byte that begins none comes after it. -/
def tornInput : Bytes :=
  [0x61, 0xe2, 0x82, 0x0a, 0xff, 0x62]

def tornFrame : Frame :=
  { machine := { files := ⟨[]⟩, directory := "/" }, session := { cwd := "/" } }

theorem input_lines_lossless_torn :
    inputLines tornInput = ["a\uFFFD\n", "\uFFFDb"] ∧
    "a\uFFFD\n".toList.getLast? = some '\n' ∧ '\n' ∉ "a\uFFFD\n".toList.dropLast ∧
    (Text.decodeStrict? tornInput).isSome = false ∧
    (inputLines tornInput).flatMap Text.encodeText ≠ tornInput := by
  have lines : inputLines tornInput = ["a\uFFFD\n", "\uFFFDb"] := by decide +kernel
  have invalid : (Text.decodeStrict? tornInput).isSome = false := by decide +kernel
  obtain ⟨-, -, ended, single, valid, -⟩ := input_lines_lossless tornInput tornFrame
  refine ⟨lines, ended _ ?_, (single _ ?_).2, invalid, fun same => ?_⟩
  · rw [lines]
    exact List.mem_singleton_self _
  · rw [lines]
    exact List.mem_cons_self
  · rw [valid.mpr same] at invalid
    contradiction

end CommandShell

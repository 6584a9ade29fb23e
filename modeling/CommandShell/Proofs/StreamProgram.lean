import Mathlib.Data.List.Induction
import Mathlib.Data.Seq.Defs
import CommandShell.Pump

/-! Programs that read one byte stream and write another. A program is run against a fixed
input stream, which may never end; how much each read brings is left open. Where this does not
show in what is written, the program is a function from streams to streams, and for a pump that
function is the identity. -/
namespace CommandShell

open Stream' (Seq)

def Begins (stream : Seq UInt8) (bytes : Bytes) : Prop :=
  ∀ n (inside : n < bytes.length), stream.get? n = some bytes[n]

namespace Begins

variable {stream : Seq UInt8} {bytes part other whole : Bytes}

theorem nil (stream : Seq UInt8) : Begins stream [] :=
  fun _ inside => absurd inside (Nat.not_lt_zero _)

theorem ofList_iff : Begins (Seq.ofList whole) bytes ↔ bytes <+: whole := by
  simp [Begins, List.prefix_iff_getElem?]

theorem ofList (bytes : Bytes) : Begins (Seq.ofList bytes) bytes :=
  ofList_iff.mpr (List.prefix_refl bytes)

theorem of_isPrefix (begins : Begins stream bytes) (first : part <+: bytes) :
    Begins stream part := by
  intro n inside
  rw [begins n (Nat.lt_of_lt_of_le inside first.length_le), first.getElem inside]

/-- Of two beginnings of a stream, one begins the other. -/
theorem isPrefix (begins : Begins stream bytes) (also : Begins stream other)
    (shorter : bytes.length ≤ other.length) : bytes <+: other := by
  rw [List.prefix_iff_getElem?]
  intro n inside
  rw [List.getElem?_eq_getElem (Nat.lt_of_lt_of_le inside shorter), ← also n, begins n inside]

theorem comparable (begins : Begins stream bytes) (also : Begins stream other) :
    bytes <+: other ∨ other <+: bytes :=
  (Nat.le_total bytes.length other.length).imp (begins.isPrefix also) (also.isPrefix begins)

theorem snoc {byte : UInt8} (begins : Begins stream bytes)
    (next : stream.get? bytes.length = some byte) : Begins stream (bytes ++ [byte]) := by
  intro n inside
  rcases Nat.lt_or_eq_of_le (Nat.le_of_lt_succ (by simpa using inside)) with earlier | rfl
  · rw [begins n earlier, List.getElem_append_left earlier]
  · simp [next]

/-- What comes before a byte of the stream. -/
theorem exists_of_get? {n : Nat} {byte : UInt8} (next : stream.get? n = some byte) :
    ∃ earlier : Bytes, earlier.length = n ∧ Begins stream (earlier ++ [byte]) := by
  induction n generalizing byte with
  | zero => exact ⟨[], rfl, (nil stream).snoc next⟩
  | succ n ih =>
    obtain ⟨previous, before⟩ := stream.ge_stable (Nat.le_succ n) next
    obtain ⟨earlier, length, begins⟩ := ih before
    exact ⟨earlier ++ [previous], by simp [length], begins.snoc (by simpa [length] using next)⟩

end Begins

/-- What a program does next. A read takes at most `limit` bytes, or any number where that is
negative; it yields the empty piece at the end of the stream only. -/
inductive Move (σ : Type) where
  | read (limit : Int) (next : Bytes → σ)
  | write (byte : UInt8) (next : σ)
  | finish (status : Int)

def Takes (limit : Int) (piece : Bytes) : Prop :=
  piece ≠ [] ∧ (limit < 0 ∨ piece.length ≤ limit)
  deriving Decidable

/-- A deterministic program. It has no other way to the outside than its two streams. -/
structure StreamProgram where
  State : Type
  start : State
  move : State → Move State

namespace StreamProgram

variable (program : StreamProgram) (input : Seq UInt8)

/-- What the program can have taken of the input and written when it is in some state. -/
inductive Reaches : Bytes → Bytes → program.State → Prop
  | start : Reaches [] [] program.start
  | read {taken written piece state limit next} (before : Reaches taken written state)
      (move : program.move state = .read limit next) (takes : Takes limit piece)
      (begins : Begins input (taken ++ piece)) : Reaches (taken ++ piece) written (next piece)
  | readEnd {taken written state limit next} (before : Reaches taken written state)
      (move : program.move state = .read limit next) (all : input = Seq.ofList taken) :
      Reaches taken written (next [])
  | write {taken written state byte next} (before : Reaches taken written state)
      (move : program.move state = .write byte next) : Reaches taken (written ++ [byte]) next

def Emits (output : Bytes) : Prop :=
  ∃ taken state, program.Reaches input taken output state

def Ends (output : Bytes) (status : Int) : Prop :=
  ∃ taken state, program.Reaches input taken output state ∧ program.move state = .finish status

variable {program input} {output : Bytes} {status : Int}

theorem Ends.emits (ends : program.Ends input output status) : program.Emits input output :=
  let ⟨taken, state, reaches, _⟩ := ends
  ⟨taken, state, reaches⟩

end StreamProgram

/-- A program whose result does not show how its reads were cut into pieces. -/
structure Segment extends StreamProgram where
  agree : ∀ {input one other}, toStreamProgram.Emits input one →
    toStreamProgram.Emits input other → one <+: other ∨ other <+: one
  whole : ∀ {input output part status}, toStreamProgram.Ends input output status →
    toStreamProgram.Emits input part → part <+: output
  one_status : ∀ {input output other status status'}, toStreamProgram.Ends input output status →
    toStreamProgram.Ends input other status' → status = status'

namespace Segment

variable {segment : Segment} {input : Seq UInt8} {output other : Bytes} {status status' : Int}

theorem ends_unique (ends : segment.Ends input output status)
    (also : segment.Ends input other status') : output = other ∧ status = status' := by
  have shorter : output <+: other := segment.whole also ends.emits
  have longer : other <+: output := segment.whole ends also.emits
  exact ⟨shorter.eq_of_length_le longer.length_le, segment.one_status ends also⟩

theorem emits_getElem {one other : Bytes} {n : Nat} (emits : segment.Emits input one)
    (also : segment.Emits input other) (inOne : n < one.length) (inOther : n < other.length) :
    one[n] = other[n] := by
  rcases segment.agree emits also with shorter | shorter
  · exact shorter.getElem inOne
  · exact (shorter.getElem inOther).symm

open Classical in
/-- The stream that the program makes of its input: all that it can write. -/
noncomputable def transform (segment : Segment) (input : Seq UInt8) : Seq UInt8 where
  val n :=
    if reached : ∃ output, segment.Emits input output ∧ n < output.length
    then reached.choose[n]? else none
  property := by
    intro n past
    have short : ¬ ∃ output, segment.Emits input output ∧ n < output.length := by
      intro reached
      have missing : reached.choose[n]? = none := (dif_pos reached).symm.trans past
      exact absurd reached.choose_spec.2 (Nat.not_lt.mpr (List.getElem?_eq_none_iff.mp missing))
    refine dif_neg fun ⟨output, emits, inside⟩ => short ⟨output, emits, ?_⟩
    exact Nat.lt_of_succ_lt inside

theorem transform_begins (emits : segment.Emits input output) :
    Begins (segment.transform input) output := by
  intro n inside
  have reached : ∃ output, segment.Emits input output ∧ n < output.length :=
    ⟨output, emits, inside⟩
  have chosen := reached.choose_spec
  calc (segment.transform input).get? n = reached.choose[n]? := dif_pos reached
    _ = some reached.choose[n] := List.getElem?_eq_getElem chosen.2
    _ = some output[n] := congrArg some (emits_getElem chosen.1 emits chosen.2 inside)

theorem transform_past {n : Nat} (short : ∀ {output}, segment.Emits input output →
    output.length ≤ n) : (segment.transform input).get? n = none :=
  dif_neg fun ⟨_, emits, inside⟩ => absurd (short emits) (Nat.not_le.mpr inside)

theorem transform_of_ends (ends : segment.Ends input output status) :
    segment.transform input = Seq.ofList output := by
  ext1 n
  rw [Seq.ofList_get?]
  by_cases inside : n < output.length
  · rw [transform_begins ends.emits n inside, List.getElem?_eq_getElem inside]
  · have past : output.length ≤ n := Nat.not_lt.mp inside
    rw [List.getElem?_eq_none past]
    exact transform_past fun emits => Nat.le_trans (segment.whole ends emits).length_le past

noncomputable def through (segments : List Segment) (input : Seq UInt8) : Seq UInt8 :=
  segments.foldl (fun stream segment => segment.transform stream) input

end Segment

namespace Pump

/-- A pump: it hands on a piece byte by byte before it reads the next one. The state is what is
left of the piece; `none` is after the end of the source. -/
def program (size : Int) : StreamProgram where
  State := Option Bytes
  start := some []
  move
    | none => .finish 0
    | some [] => .read size fun piece => if piece = [] then none else some piece
    | some (byte :: rest) => .write byte (some rest)

variable {size : Int} {input : Seq UInt8} {taken written bytes : Bytes}
  {state : (program size).State}

theorem move_read {limit : Int} {next : Bytes → Option Bytes}
    (move : (program size).move state = .read limit next) :
    state = some [] ∧ next = fun piece => if piece = [] then none else some piece := by
  match (state : Option Bytes), move with
  | some [], rfl => exact ⟨rfl, rfl⟩

theorem move_write {byte : UInt8} {next : Option Bytes}
    (move : (program size).move state = .write byte next) :
    ∃ rest, state = some (byte :: rest) ∧ next = some rest := by
  match (state : Option Bytes), move with
  | some (_ :: rest), rfl => exact ⟨rest, rfl, rfl⟩

theorem move_finish {status : Int} (move : (program size).move state = .finish status) :
    state = none ∧ status = 0 := by
  match (state : Option Bytes), move with
  | none, rfl => exact ⟨rfl, rfl⟩
  | some [], move => cases move
  | some (_ :: _), move => cases move

/-- Nothing is lost or reordered on the way. -/
theorem reaches_copied (reaches : (program size).Reaches input taken written state) :
    taken = written ++ Option.getD state [] ∧ Begins input taken ∧
      (state = none → input = Seq.ofList written) := by
  induction reaches with
  | start => exact ⟨rfl, .nil input, by simp [program]⟩
  | read _ move takes begins ih =>
    obtain ⟨rfl, rfl⟩ := move_read move
    obtain ⟨copied, -, -⟩ := ih
    simp_all [takes.1]
  | readEnd _ move all ih =>
    obtain ⟨rfl, rfl⟩ := move_read move
    obtain ⟨copied, begins, -⟩ := ih
    simp_all
  | write _ move ih =>
    obtain ⟨rest, rfl, rfl⟩ := move_write move
    obtain ⟨copied, begins, -⟩ := ih
    simp_all

theorem emits_begins (emits : (program size).Emits input bytes) : Begins input bytes := by
  obtain ⟨taken, state, reaches⟩ := emits
  obtain ⟨copied, begins, -⟩ := reaches_copied reaches
  exact begins.of_isPrefix ⟨_, copied.symm⟩

theorem ends_ofList {status : Int} (ends : (program size).Ends input bytes status) :
    input = Seq.ofList bytes ∧ status = 0 := by
  obtain ⟨taken, state, reaches, finish⟩ := ends
  obtain ⟨rfl, rfl⟩ := move_finish finish
  exact ⟨(reaches_copied reaches).2.2 rfl, rfl⟩

/-- A pump can hand on any beginning of its source. -/
theorem reaches_begins (nonzero : size ≠ 0) (begins : Begins input bytes) :
    (program size).Reaches input bytes bytes (some []) := by
  induction bytes using List.reverseRecOn with
  | nil => exact .start
  | append_singleton earlier byte ih =>
    have before := ih (begins.of_isPrefix (List.prefix_append earlier [byte]))
    have takes : Takes size [byte] := ⟨by simp, by simp; omega⟩
    exact (before.read rfl takes begins).write rfl

theorem ends_all (nonzero : size ≠ 0) (bytes : Bytes) :
    (program size).Ends (Seq.ofList bytes) bytes 0 :=
  ⟨bytes, none, (reaches_begins nonzero (.ofList bytes)).readEnd rfl rfl, rfl⟩

def segment (size : Int) : Segment where
  toStreamProgram := program size
  agree emits also := (emits_begins emits).comparable (emits_begins also)
  whole ends emits := by
    obtain ⟨rfl, -⟩ := ends_ofList ends
    exact Begins.ofList_iff.mp (emits_begins emits)
  one_status ends also := (ends_ofList ends).2.trans (ends_ofList also).2.symm

/-- A pump changes nothing. -/
theorem transform_segment (nonzero : size ≠ 0) (input : Seq UInt8) :
    (segment size).transform input = input := by
  have emits {bytes : Bytes} (begins : Begins input bytes) : (segment size).Emits input bytes :=
    ⟨bytes, some [], reaches_begins nonzero begins⟩
  ext1 n
  cases next : input.get? n with
  | none =>
    refine Segment.transform_past fun {output} emitted => Nat.not_lt.mp fun inside => ?_
    rw [emits_begins emitted n inside] at next
    cases next
  | some byte =>
    obtain ⟨earlier, rfl, begins⟩ := Begins.exists_of_get? next
    simpa using Segment.transform_begins (emits begins) earlier.length (by simp)

def between (size : Int) : List Segment → List Segment
  | [] => [segment size]
  | first :: rest => segment size :: first :: between size rest

end Pump

end CommandShell

import CommandShell.Text.Utf8

/-! The strict decoder reads back what the encoder writes, and a text that decodes ends
between two characters, so that texts may be joined as bytes. -/
namespace CommandShell.Text

theorem utf8Start_one {n : Nat} (high : n ≤ 0x7f) :
    utf8Start (UInt8.ofNat n) = ([some (Char.ofNat n)], .start) := by
  have value : (UInt8.ofNat n).toNat = n := by simp; omega
  simp only [utf8Start, UInt8.le_iff_toNat_le, value, UInt8.reduceToNat]
  rw [if_pos (by omega)]

theorem utf8Start_two {n : Nat} (low : 0xc2 ≤ n) (high : n ≤ 0xdf) :
    utf8Start (UInt8.ofNat n) = ([], .inside 0 0x80 0xbf (n - 0xc0)) := by
  have value : (UInt8.ofNat n).toNat = n := by simp; omega
  simp only [utf8Start, UInt8.le_iff_toNat_le, UInt8.lt_iff_toNat_lt, value, UInt8.reduceToNat]
  rw [if_neg (by omega), if_neg (by omega), if_pos (by omega)]

/-- Three bytes: the second is bounded against overlong forms and surrogates. -/
theorem utf8Start_three {n : Nat} (low : 0xe0 ≤ n) (high : n ≤ 0xef) :
    utf8Start (UInt8.ofNat n) = ([], .inside 1 (if n = 0xe0 then 0xa0 else 0x80)
      (if n = 0xed then 0x9f else 0xbf) (n - 0xe0)) := by
  have value : (UInt8.ofNat n).toNat = n := by simp; omega
  simp only [utf8Start, UInt8.le_iff_toNat_le, UInt8.lt_iff_toNat_lt, ← UInt8.toNat_inj, value,
    UInt8.reduceToNat]
  rw [if_neg (by omega), if_neg (by omega), if_neg (by omega)]
  by_cases first : n = 0xe0
  · simp [first]
  · by_cases last : n = 0xed
    · simp [last]
    · simp [first, last, high]

/-- Four bytes: the second is bounded against overlong forms and values past the last. -/
theorem utf8Start_four {n : Nat} (low : 0xf0 ≤ n) (high : n ≤ 0xf4) :
    utf8Start (UInt8.ofNat n) = ([], .inside 2 (if n = 0xf0 then 0x90 else 0x80)
      (if n = 0xf4 then 0x8f else 0xbf) (n - 0xf0)) := by
  have value : (UInt8.ofNat n).toNat = n := by simp; omega
  simp only [utf8Start, UInt8.le_iff_toNat_le, UInt8.lt_iff_toNat_lt, ← UInt8.toNat_inj, value,
    UInt8.reduceToNat]
  rw [if_neg (by omega), if_neg (by omega), if_neg (by omega), if_neg (by omega),
    if_neg (by omega), if_neg (by omega)]
  by_cases first : n = 0xf0
  · simp [first]
  · by_cases last : n = 0xf4
    · simp [last]
    · have middle : n ≤ 0xf3 := by omega
      simp [first, last, middle]

theorem utf8Step_within {low high : UInt8} {n : Nat} (above : low.toNat ≤ n)
    (below : n ≤ high.toNat) : (low ≤ UInt8.ofNat n && UInt8.ofNat n ≤ high) = true := by
  have bound := high.toNat_lt
  have value : (UInt8.ofNat n).toNat = n := by simp; omega
  simp only [UInt8.le_iff_toNat_le, value, Bool.and_eq_true, decide_eq_true_eq]
  exact ⟨above, below⟩

theorem utf8Step_more (low high : UInt8) {n : Nat} (above : low.toNat ≤ n)
    (below : n ≤ high.toNat) (more value : Nat) :
    utf8Step (.inside (more + 1) low high value) (UInt8.ofNat n) =
      ([], .inside more 0x80 0xbf (value * 64 + (n - 0x80))) := by
  have bound := high.toNat_lt
  have shown : (UInt8.ofNat n).toNat = n := by simp; omega
  simp only [utf8Step, utf8Step_within above below, if_true, shown]

theorem utf8Step_last {n : Nat} (above : 0x80 ≤ n) (below : n ≤ 0xbf) (value : Nat) :
    utf8Step (.inside 0 0x80 0xbf value) (UInt8.ofNat n) =
      ([some (Char.ofNat (value * 64 + (n - 0x80)))], .start) := by
  have within : ((0x80 : UInt8) ≤ UInt8.ofNat n && UInt8.ofNat n ≤ 0xbf) = true :=
    utf8Step_within above below
  have shown : (UInt8.ofNat n).toNat = n := by simp; omega
  simp only [utf8Step, within, if_true, shown]

/-- A character takes the decoder from one boundary to the next. -/
theorem utf8Run_encodeChar (c : Char) (done : List Decoded) (rest : Bytes) :
    utf8Run .start done (String.utf8EncodeChar c ++ rest) =
      utf8Run .start (some c :: done) rest := by
  have valid : c.toNat < 0xd800 ∨ 0xdfff < c.toNat ∧ c.toNat < 0x110000 := c.valid
  have same : Char.ofNat c.toNat = c := Char.ofNat_toNat c
  have shown : c.val.toNat = c.toNat := rfl
  rw [String.utf8EncodeChar, shown]
  generalize c.toNat = v at valid same
  split
  case isTrue one => simp [utf8Run, utf8Step, utf8Start_one one, same]
  case isFalse past =>
    split
    case isTrue two =>
      have first := utf8Start_two (n := v / 64 % 32 + 192) (by omega) (by omega)
      have second := utf8Step_last (n := v % 64 + 128) (by omega) (by omega)
        (v / 64 % 32 + 192 - 0xc0)
      have value : (v / 64 % 32 + 192 - 0xc0) * 64 + (v % 64 + 128 - 0x80) = v := by omega
      simp only [List.cons_append, List.nil_append, utf8Run, utf8Step.eq_1, first, second, value,
        same]
      rfl
    case isFalse past =>
      have last := utf8Step_last (n := v % 64 + 128) (by omega) (by omega)
      split
      case isTrue three =>
        have first := utf8Start_three (n := v / 4096 % 16 + 224) (by omega) (by omega)
        have second := utf8Step_more (if v / 4096 % 16 + 224 = 0xe0 then 0xa0 else 0x80)
          (if v / 4096 % 16 + 224 = 0xed then 0x9f else 0xbf) (n := v / 64 % 64 + 128)
          (by split <;> simp <;> omega) (by split <;> simp <;> omega)
        have value : ((v / 4096 % 16 + 224 - 0xe0) * 64 + (v / 64 % 64 + 128 - 0x80)) * 64 +
            (v % 64 + 128 - 0x80) = v := by omega
        simp only [List.cons_append, List.nil_append, utf8Run, utf8Step.eq_1, first, second, last,
          value, same]
        rfl
      case isFalse four =>
        have first := utf8Start_four (n := v / 262144 % 8 + 240) (by omega) (by omega)
        have second := utf8Step_more (if v / 262144 % 8 + 240 = 0xf0 then 0x90 else 0x80)
          (if v / 262144 % 8 + 240 = 0xf4 then 0x8f else 0xbf) (n := v / 4096 % 64 + 128)
          (by split <;> simp <;> omega) (by split <;> simp <;> omega)
        have third := utf8Step_more 0x80 0xbf (n := v / 64 % 64 + 128) (by simp) (by simp; omega)
        have value : (((v / 262144 % 8 + 240 - 0xf0) * 64 + (v / 4096 % 64 + 128 - 0x80)) * 64 +
            (v / 64 % 64 + 128 - 0x80)) * 64 + (v % 64 + 128 - 0x80) = v := by omega
        simp only [List.cons_append, List.nil_append, utf8Run, utf8Step.eq_1, first, second, third,
          last, value, same]
        rfl

theorem utf8Run_done (state : Utf8State) (done : List Decoded) (bytes : Bytes) :
    utf8Run state done bytes = done.reverse ++ utf8Run state [] bytes := by
  induction bytes generalizing state done with
  | nil => rfl
  | cons b rest ih =>
    simp only [utf8Run]
    rw [ih, ih _ ((utf8Step state b).1.reverse ++ [])]
    simp

/-- Where nothing malformed is met, the decoder is between two characters at the end. -/
theorem utf8Run_append {state : Utf8State} {done : List Decoded} {first : Bytes}
    (valid : (utf8Run state done first).all Option.isSome = true) (second : Bytes) :
    utf8Run state done (first ++ second) =
      utf8Run .start (utf8Run state done first).reverse second := by
  induction first generalizing state done with
  | nil =>
    cases state with
    | start => simp [utf8Run, utf8Finish]
    | inside => simp [utf8Run, utf8Finish] at valid
  | cons b rest ih =>
    rw [List.cons_append, utf8Run]
    exact ih valid

theorem decodeStrict?_append {first : Bytes} {text : List Char}
    (valid : decodeStrict? first = some text) (second : Bytes) :
    decodeStrict? (first ++ second) = (decodeStrict? second).map (text ++ ·) := by
  simp only [decodeStrict?] at valid ⊢
  split at valid
  case isTrue good =>
    cases valid
    rw [utf8Run_append good, utf8Run_done, List.reverse_reverse, List.all_append, good,
      Bool.true_and]
    split <;> simp
  case isFalse => cases valid

theorem encode_append (first second : List Char) :
    encode (first ++ second) = encode first ++ encode second :=
  List.flatMap_append

theorem decodeStrict?_encode (text : List Char) : decodeStrict? (encode text) = some text := by
  induction text with
  | nil => rfl
  | cons c rest ih =>
    have one : decodeStrict? (String.utf8EncodeChar c) = some [c] := by
      have run := utf8Run_encodeChar c [] []
      rw [List.append_nil] at run
      simp [decodeStrict?, run, utf8Run, utf8Finish, shown]
    rw [encode, List.flatMap_cons, decodeStrict?_append one]
    exact congrArg (Option.map _) ih

theorem decodeReplacing_encode (text : List Char) : decodeReplacing (encode text) = text := by
  have decoded := decodeStrict?_encode text
  simp only [decodeStrict?] at decoded
  split at decoded
  · exact Option.some.inj decoded
  · cases decoded

/-- What the bytes decode to as they come, and where they leave the decoder. -/
def utf8Feed (state : Utf8State) : Bytes → List Decoded × Utf8State
  | [] => ([], state)
  | b :: rest =>
    let (decoded, next) := utf8Step state b
    let (later, last) := utf8Feed next rest
    (decoded ++ later, last)

theorem utf8Run_feed (state : Utf8State) (bytes : Bytes) :
    utf8Run state [] bytes = (utf8Feed state bytes).1 ++ utf8Finish (utf8Feed state bytes).2 := by
  induction bytes generalizing state with
  | nil => rfl
  | cons b rest ih =>
    simp only [utf8Run, utf8Feed]
    rw [utf8Run_done, ih]
    simp

/-- An encoded text leaves the decoder between two characters. -/
theorem utf8Feed_encode (text : List Char) :
    utf8Feed .start (encode text) = (text.map some, .start) := by
  have run : utf8Run .start [] (encode text) = text.map some := by
    induction text with
    | nil => rfl
    | cons c rest ih =>
      have first : encode (c :: rest) = String.utf8EncodeChar c ++ encode rest := rfl
      rw [first, utf8Run_encodeChar, utf8Run_done, ih]
      rfl
  rw [utf8Run_feed] at run
  cases fed : utf8Feed .start (encode text) with
  | mk decoded last =>
    rw [fed] at run
    cases last with
    | start => simpa [utf8Finish] using run
    | inside more low high value =>
      have broken : none ∈ text.map some := by
        rw [← run]
        simp [utf8Finish]
      simp at broken

/-- A byte below 128 stands for itself and is no part of another character. -/
theorem mem_encode_ascii {b : UInt8} {text : List Char} (member : b ∈ encode text)
    (small : b.toNat < 0x80) : ∃ c ∈ text, c.toNat = b.toNat := by
  obtain ⟨c, inside, part⟩ := List.mem_flatMap.mp member
  refine ⟨c, inside, ?_⟩
  have shown : c.val.toNat = c.toNat := rfl
  rw [String.utf8EncodeChar, shown] at part
  split at part
  · obtain rfl := List.mem_singleton.mp part
    simp
    omega
  · exfalso
    split at part
    · simp only [List.mem_cons, List.not_mem_nil, or_false] at part
      rcases part with rfl | rfl <;> simp at small <;> omega
    · split at part
      · simp only [List.mem_cons, List.not_mem_nil, or_false] at part
        rcases part with rfl | rfl | rfl <;> simp at small <;> omega
      · simp only [List.mem_cons, List.not_mem_nil, or_false] at part
        rcases part with rfl | rfl | rfl | rfl <;> simp at small <;> omega

end CommandShell.Text

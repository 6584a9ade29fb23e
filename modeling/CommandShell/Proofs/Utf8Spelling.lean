import CommandShell.Proofs.Utf8

/-! What the decoder gives stands in the bytes: a character for its own encoding, a mark for a part
that belongs to no character. So bytes that decode strictly are the encoding of their text, and
since a newline is never part of another character, decoding may stop and start again there. -/
namespace CommandShell.Text

/-- The bytes are the encodings of the characters, with a part of its own for each mark. -/
inductive Spells : Bytes → List Decoded → Prop
  | nil : Spells [] []
  | character (c : Char) {bytes : Bytes} {decoded : List Decoded} (rest : Spells bytes decoded) :
      Spells (String.utf8EncodeChar c ++ bytes) (some c :: decoded)
  | mark {part : Bytes} (given : part ≠ []) {bytes : Bytes} {decoded : List Decoded}
      (rest : Spells bytes decoded) : Spells (part ++ bytes) (none :: decoded)

namespace Spells

theorem ofChar (c : Char) : Spells (String.utf8EncodeChar c) [some c] := by
  simpa using character c nil

theorem ofMark {part : Bytes} (given : part ≠ []) : Spells part [none] := by
  simpa using mark given nil

theorem append {first second : Bytes} {decoded later : List Decoded}
    (spelled : Spells first decoded) (more : Spells second later) :
    Spells (first ++ second) (decoded ++ later) := by
  induction spelled with
  | nil => exact more
  | character c _ ih =>
    rw [List.append_assoc]
    exact .character c ih
  | mark given _ ih =>
    rw [List.append_assoc]
    exact .mark given ih

theorem encode_eq {bytes : Bytes} {decoded : List Decoded} (spelled : Spells bytes decoded)
    (valid : decoded.all Option.isSome = true) : encode (decoded.map shown) = bytes := by
  induction spelled with
  | nil => rfl
  | character c _ ih =>
    rw [← ih (by simpa using valid)]
    rfl
  | mark => simp at valid

theorem eq_nil {bytes : Bytes} (spelled : Spells bytes []) : bytes = [] := by
  cases spelled
  rfl

theorem encodeChar_subset {bytes : Bytes} {decoded : List Decoded} {c : Char}
    (spelled : Spells bytes decoded) (member : some c ∈ decoded) :
    String.utf8EncodeChar c ⊆ bytes := by
  induction spelled with
  | nil => cases member
  | character d _ ih =>
    rcases List.mem_cons.mp member with same | later
    · cases same
      exact List.subset_append_left _ _
    · exact List.subset_append_of_subset_right _ (ih later)
  | mark _ _ ih =>
    rcases List.mem_cons.mp member with same | later
    · cases same
    · exact List.subset_append_of_subset_right _ (ih later)

end Spells

theorem toNat_ofNat {n : Nat} (valid : n.isValidChar) : (Char.ofNat n).val.toNat = n := by
  rw [Char.ofNat, dif_pos valid]
  rfl

theorem encodeChar_one {n : Nat} (high : n ≤ 0x7f) :
    String.utf8EncodeChar (Char.ofNat n) = [UInt8.ofNat n] := by
  have value : (Char.ofNat n).val.toNat = n := toNat_ofNat (.inl (by omega))
  rw [String.utf8EncodeChar, value, if_pos high]

theorem encodeChar_two {a b : Nat} (lead : 0xc2 ≤ a ∧ a ≤ 0xdf) (last : 0x80 ≤ b ∧ b ≤ 0xbf) :
    String.utf8EncodeChar (Char.ofNat ((a - 0xc0) * 64 + (b - 0x80))) =
      [UInt8.ofNat a, UInt8.ofNat b] := by
  obtain ⟨n, sum⟩ : ∃ n, n = (a - 0xc0) * 64 + (b - 0x80) := ⟨_, rfl⟩
  have value : (Char.ofNat n).val.toNat = n := toNat_ofNat (.inl (by omega))
  have first : n / 64 % 32 + 192 = a := by omega
  have second : n % 64 + 128 = b := by omega
  rw [← sum, String.utf8EncodeChar, value, if_neg (by omega), if_pos (by omega), first, second]

/-- The bounds of the second byte keep the value out of the shorter forms and the surrogates. -/
theorem encodeChar_three {a b c : Nat} (lead : 0xe0 ≤ a ∧ a ≤ 0xef)
    (second : (if a = 0xe0 then 0xa0 else 0x80) ≤ b ∧ b ≤ if a = 0xed then 0x9f else 0xbf)
    (last : 0x80 ≤ c ∧ c ≤ 0xbf) :
    String.utf8EncodeChar (Char.ofNat (((a - 0xe0) * 64 + (b - 0x80)) * 64 + (c - 0x80))) =
      [UInt8.ofNat a, UInt8.ofNat b, UInt8.ofNat c] := by
  obtain ⟨n, sum⟩ : ∃ n, n = ((a - 0xe0) * 64 + (b - 0x80)) * 64 + (c - 0x80) := ⟨_, rfl⟩
  have bounds : 0x80 ≤ b ∧ b ≤ 0xbf ∧ (a = 0xe0 → 0xa0 ≤ b) ∧ (a = 0xed → b ≤ 0x9f) := by
    split at second <;> split at second <;> omega
  have value : (Char.ofNat n).val.toNat = n := by
    refine toNat_ofNat ?_
    by_cases below : n < 0xd800
    · exact .inl below
    · exact .inr ⟨by omega, by omega⟩
  have one : n / 4096 % 16 + 224 = a := by omega
  have two : n / 64 % 64 + 128 = b := by omega
  have three : n % 64 + 128 = c := by omega
  rw [← sum, String.utf8EncodeChar, value, if_neg (by omega), if_neg (by omega), if_pos (by omega),
    one, two, three]

/-- The bounds of the second byte keep the value between the shorter forms and the last
character. -/
theorem encodeChar_four {a b c d : Nat} (lead : 0xf0 ≤ a ∧ a ≤ 0xf4)
    (second : (if a = 0xf0 then 0x90 else 0x80) ≤ b ∧ b ≤ if a = 0xf4 then 0x8f else 0xbf)
    (third : 0x80 ≤ c ∧ c ≤ 0xbf) (last : 0x80 ≤ d ∧ d ≤ 0xbf) :
    String.utf8EncodeChar (Char.ofNat
      ((((a - 0xf0) * 64 + (b - 0x80)) * 64 + (c - 0x80)) * 64 + (d - 0x80))) =
      [UInt8.ofNat a, UInt8.ofNat b, UInt8.ofNat c, UInt8.ofNat d] := by
  obtain ⟨n, sum⟩ : ∃ n,
    n = (((a - 0xf0) * 64 + (b - 0x80)) * 64 + (c - 0x80)) * 64 + (d - 0x80) := ⟨_, rfl⟩
  have bounds : 0x80 ≤ b ∧ b ≤ 0xbf ∧ (a = 0xf0 → 0x90 ≤ b) ∧ (a = 0xf4 → b ≤ 0x8f) := by
    split at second <;> split at second <;> omega
  have value : (Char.ofNat n).val.toNat = n := toNat_ofNat (.inr ⟨by omega, by omega⟩)
  have one : n / 262144 % 8 + 240 = a := by omega
  have two : n / 4096 % 64 + 128 = b := by omega
  have three : n / 64 % 64 + 128 = c := by omega
  have four : n % 64 + 128 = d := by omega
  rw [← sum, String.utf8EncodeChar, value, if_neg (by omega), if_neg (by omega), if_neg (by omega),
    one, two, three, four]

/-- Whatever bytes the bounds allow, they complete `part` to the encoding of the character that
comes of them. -/
def Completes : Nat → UInt8 → UInt8 → Nat → Bytes → Prop
  | 0, low, high, value, part => ∀ b, low ≤ b → b ≤ high →
      String.utf8EncodeChar (Char.ofNat (value * 64 + (b.toNat - 0x80))) = part ++ [b]
  | more + 1, low, high, value, part => ∀ b, low ≤ b → b ≤ high →
      Completes more 0x80 0xbf (value * 64 + (b.toNat - 0x80)) (part ++ [b])

/-- What the decoder has read of a character that is not complete. -/
def Owes (part : Bytes) : Utf8State → Prop
  | .start => part = []
  | .inside more low high value => part ≠ [] ∧ 0x80 ≤ low ∧ Completes more low high value part

/-- The bytes are used up by what was decoded, but for the part that the next state keeps. -/
def Decodes (bytes : Bytes) (given : List Decoded × Utf8State) : Prop :=
  ∃ used kept, bytes = used ++ kept ∧ Spells used given.1 ∧ Owes kept given.2

theorem Decodes.after_mark {bytes part : Bytes} {given : List Decoded × Utf8State}
    (rest : Decodes bytes given) (broken : part ≠ []) :
    Decodes (part ++ bytes) (none :: given.1, given.2) := by
  obtain ⟨used, kept, rfl, spelled, owes⟩ := rest
  exact ⟨part ++ used, kept, by rw [List.append_assoc], .mark broken spelled, owes⟩

theorem utf8Start_malformed {n : Nat} (bound : n < 256)
    (outside : 0x80 ≤ n ∧ n < 0xc2 ∨ 0xf4 < n) :
    utf8Start (UInt8.ofNat n) = ([none], .start) := by
  have value : (UInt8.ofNat n).toNat = n := by simp; omega
  simp only [utf8Start, UInt8.le_iff_toNat_le, UInt8.lt_iff_toNat_lt, ← UInt8.toNat_inj, value,
    UInt8.reduceToNat]
  rw [if_neg (by omega)]
  by_cases low : n < 0xc2
  · rw [if_pos low]
  · rw [if_neg low, if_neg (by omega), if_neg (by omega), if_neg (by omega), if_neg (by omega),
      if_neg (by omega), if_neg (by omega), if_neg (by omega)]

theorem decodes_nothing {part : Bytes} {state : Utf8State} (owes : Owes part state) :
    Decodes part ([], state) :=
  ⟨[], part, rfl, .nil, owes⟩

/-- The first byte of a character bounds the others so that they complete it. -/
theorem utf8Start_decodes (b : UInt8) : Decodes [b] (utf8Start b) := by
  obtain ⟨n, bound, rfl⟩ : ∃ n, n < 256 ∧ b = UInt8.ofNat n :=
    ⟨b.toNat, b.toNat_lt, UInt8.ofNat_toNat.symm⟩
  by_cases outside : 0x80 ≤ n ∧ n < 0xc2 ∨ 0xf4 < n
  · rw [utf8Start_malformed bound outside]
    exact ⟨[UInt8.ofNat n], [], rfl, .ofMark (by simp), rfl⟩
  by_cases one : n ≤ 0x7f
  · rw [utf8Start_one one]
    exact ⟨[UInt8.ofNat n], [], rfl, encodeChar_one one ▸ .ofChar _, rfl⟩
  by_cases two : n ≤ 0xdf
  · rw [utf8Start_two (by omega) two]
    refine decodes_nothing ⟨by simp, by decide, ?_⟩
    intro c low high
    rw [UInt8.le_iff_toNat_le] at low high
    rw [encodeChar_two ⟨by omega, two⟩ ⟨low, high⟩, UInt8.ofNat_toNat]
    rfl
  by_cases three : n ≤ 0xef
  · rw [utf8Start_three (by omega) three]
    refine decodes_nothing ⟨by simp, by split <;> decide, ?_⟩
    intro c low high d lowLast highLast
    simp only [UInt8.le_iff_toNat_le, apply_ite UInt8.toNat, UInt8.reduceToNat] at *
    rw [encodeChar_three ⟨by omega, three⟩ ⟨low, high⟩ ⟨lowLast, highLast⟩, UInt8.ofNat_toNat,
      UInt8.ofNat_toNat]
    rfl
  · rw [utf8Start_four (by omega) (by omega)]
    refine decodes_nothing ⟨by simp, by split <;> decide, ?_⟩
    intro c low high d lowNext highNext e lowLast highLast
    simp only [UInt8.le_iff_toNat_le, apply_ite UInt8.toNat, UInt8.reduceToNat] at *
    rw [encodeChar_four ⟨by omega, by omega⟩ ⟨low, high⟩ ⟨lowNext, highNext⟩ ⟨lowLast, highLast⟩,
      UInt8.ofNat_toNat, UInt8.ofNat_toNat, UInt8.ofNat_toNat]
    rfl

/-- One byte more. -/
theorem utf8Step_decodes {part : Bytes} {state : Utf8State} (owes : Owes part state) (b : UInt8) :
    Decodes (part ++ [b]) (utf8Step state b) := by
  cases state with
  | start =>
    rw [show part = [] from owes]
    exact utf8Start_decodes b
  | inside more low high value =>
    obtain ⟨given, bound, completes⟩ := owes
    rw [utf8Step]
    split
    next within =>
      rw [Bool.and_eq_true, decide_eq_true_eq, decide_eq_true_eq] at within
      cases more with
      | zero =>
        refine ⟨part ++ [b], [], by simp, ?_, rfl⟩
        rw [← completes b within.1 within.2]
        exact .ofChar _
      | succ more =>
        exact decodes_nothing ⟨by simp, by decide, completes b within.1 within.2⟩
    · exact (utf8Start_decodes b).after_mark given

/-- A byte below 128 ends what is not complete and stands for itself. -/
theorem utf8Step_newline {part : Bytes} {state : Utf8State} (owes : Owes part state) :
    utf8Step state 0x0a = (utf8Finish state ++ [some '\n'], .start) := by
  cases state with
  | start => rfl
  | inside more low high value =>
    have outside : (low ≤ 0x0a && 0x0a ≤ high) = false := by
      obtain ⟨-, bound, -⟩ := owes
      rw [UInt8.le_iff_toNat_le] at bound
      simp only [UInt8.le_iff_toNat_le, UInt8.reduceToNat, Bool.and_eq_false_iff,
        decide_eq_false_iff_not] at bound ⊢
      omega
    rw [utf8Step, outside]
    rfl

theorem utf8Run_cons (state : Utf8State) (b : UInt8) (rest : Bytes) :
    utf8Run state [] (b :: rest) =
      (utf8Step state b).1 ++ utf8Run (utf8Step state b).2 [] rest := by
  simp only [utf8Run]
  rw [utf8Run_done, List.append_nil, List.reverse_reverse]

theorem utf8Run_spells {part : Bytes} {state : Utf8State} (owes : Owes part state) (bytes : Bytes) :
    Spells (part ++ bytes) (utf8Run state [] bytes) := by
  induction bytes generalizing part state with
  | nil =>
    rw [List.append_nil, utf8Run]
    cases state with
    | start =>
      rw [show part = [] from owes]
      exact .nil
    | inside => exact .ofMark owes.1
  | cons b rest ih =>
    obtain ⟨used, kept, split, spelled, owed⟩ := utf8Step_decodes owes b
    rw [List.append_cons, split, List.append_assoc, utf8Run_cons]
    exact spelled.append (ih owed)

theorem utf8Run_newline {part : Bytes} {state : Utf8State} (owes : Owes part state)
    (first rest : Bytes) :
    utf8Run state [] (first ++ 0x0a :: rest) =
      utf8Run state [] first ++ some '\n' :: utf8Run .start [] rest := by
  induction first generalizing part state with
  | nil =>
    rw [List.nil_append, utf8Run_cons, utf8Step_newline owes, List.append_assoc]
    rfl
  | cons b first ih =>
    obtain ⟨-, kept, -, -, owed⟩ := utf8Step_decodes owes b
    rw [List.cons_append, utf8Run_cons, utf8Run_cons, ih owed, List.append_assoc]

theorem owes_start : Owes [] .start :=
  rfl

/-- Decoding may be cut before and after a newline, whatever is broken around it. -/
theorem decodeReplacing_newline (first rest : Bytes) :
    decodeReplacing (first ++ 0x0a :: rest) =
      decodeReplacing first ++ '\n' :: decodeReplacing rest := by
  rw [decodeReplacing, utf8Run_newline owes_start]
  simp [decodeReplacing, shown]

theorem newline_not_mem_decodeReplacing {bytes : Bytes} (unbroken : 0x0a ∉ bytes) :
    '\n' ∉ decodeReplacing bytes := by
  intro member
  obtain ⟨decoded, inside, character⟩ := List.mem_map.mp member
  cases decoded with
  | none => exact absurd character (by decide)
  | some c =>
    obtain rfl : c = '\n' := character
    exact unbroken ((utf8Run_spells owes_start bytes).encodeChar_subset inside (by decide))

theorem eq_nil_of_decodeReplacing {bytes : Bytes} (empty : decodeReplacing bytes = []) :
    bytes = [] := by
  have spelled := utf8Run_spells owes_start bytes
  rw [List.map_eq_nil_iff.mp empty] at spelled
  exact spelled.eq_nil

/-- The strict decoder accepts the encodings of texts and nothing else. -/
theorem decodeStrict?_eq_some_iff {bytes : Bytes} {text : List Char} :
    decodeStrict? bytes = some text ↔ bytes = encode text := by
  constructor
  · intro decoded
    rw [decodeStrict?] at decoded
    split at decoded
    next valid =>
      cases decoded
      exact ((utf8Run_spells owes_start bytes).encode_eq valid).symm
    · cases decoded
  · rintro rfl
    exact decodeStrict?_encode text

end CommandShell.Text

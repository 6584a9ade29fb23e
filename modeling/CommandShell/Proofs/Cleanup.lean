import CommandShell.Program.Children

/-! When ending the children fails, and that otherwise none of them is left. -/
namespace CommandShell

variable {timeout : Nat} {children killed : List Child}

theorem signalAll_error_iff (answer : Child → SignalAnswer) (children : List Child) :
    (∃ fault, signalAll answer children = .error fault) ↔
      ∃ child ∈ children, ∃ message, answer child = .denied message := by
  induction children with
  | nil => simp [signalAll]
  | cons child rest ih =>
    simp only [signalAll, List.mem_cons, exists_eq_or_imp, ← ih]
    cases answered : answer child with
    | denied message => simp
    | gone => simp
    | taken => cases signalAll answer rest <;> simp [Except.map]

theorem mem_signalAll {answer : Child → SignalAnswer}
    (signalled : signalAll answer children = .ok killed) {child : Child}
    (member : child ∈ children) : child ∈ killed ∨ answer child = .gone := by
  induction children generalizing killed with
  | nil => cases member
  | cons first rest ih =>
    rw [signalAll] at signalled
    cases answered : answer first with
    | denied message => simp [answered] at signalled
    | gone =>
      simp only [answered] at signalled
      rcases List.mem_cons.mp member with rfl | later
      · exact .inr answered
      · exact ih signalled later
    | taken =>
      simp only [answered] at signalled
      cases others : signalAll answer rest with
      | error fault => simp [others, Except.map] at signalled
      | ok found =>
        obtain rfl : first :: found = killed := by simpa [others, Except.map] using signalled
        rcases List.mem_cons.mp member with rfl | later
        · exact .inl (List.mem_cons_self ..)
        · exact (ih others later).imp_left (List.mem_cons_of_mem _)

/-- A child that may not be asked to end stops the cleanup, and so does one that does not end in
time and may not be killed. -/
theorem cleanUp_error_iff (timeout : Nat) (children : Option (List Child)) :
    (∃ fault, cleanUp timeout children = .error fault) ↔
      ∃ known, children = some known ∧ ∃ child ∈ known, ∃ message,
        child.onTerminate = .denied message ∨
          child.outlasts timeout = true ∧ child.onKill = .denied message := by
  cases children with
  | none => simp [cleanUp]
  | some known =>
    have asked := signalAll_error_iff Child.onTerminate known
    have ended := signalAll_error_iff Child.onKill (known.filter (·.outlasts timeout))
    simp only [List.mem_filter] at ended
    simp only [cleanUp, Option.some.injEq, exists_eq_left']
    cases first : signalAll Child.onTerminate known with
    | error fault =>
      obtain ⟨child, member, message, denied⟩ := asked.mp ⟨fault, first⟩
      simp only [Except.error.injEq, exists_eq', true_iff]
      exact ⟨child, member, message, .inl denied⟩
    | ok taken =>
      have willing : ∀ child ∈ known, ∀ message, child.onTerminate ≠ .denied message := by
        intro child member message denied
        obtain ⟨fault, failed⟩ := asked.mpr ⟨child, member, message, denied⟩
        rw [first] at failed
        cases failed
      simp only [ended]
      constructor
      · rintro ⟨child, ⟨member, outlasts⟩, message, denied⟩
        exact ⟨child, member, message, .inr ⟨outlasts, denied⟩⟩
      · rintro ⟨child, member, message, denied | ⟨outlasts, denied⟩⟩
        · exact absurd denied (willing child member message)
        · exact ⟨child, ⟨member, outlasts⟩, message, denied⟩

/-- A cleanup that comes to its end leaves no child behind. -/
theorem survivors_cleanUp (cleaned : cleanUp timeout (some children) = .ok killed) :
    survivors timeout killed children = [] := by
  rw [cleanUp] at cleaned
  split at cleaned
  · cases cleaned
  · rw [survivors, List.filter_eq_nil_iff]
    intro child member survives
    simp only [Bool.and_eq_true, bne_iff_ne, Bool.not_eq_true', List.contains_eq_mem,
      decide_eq_false_iff_not] at survives
    have lingers : child ∈ children.filter (·.outlasts timeout) :=
      List.mem_filter.mpr ⟨member, survives.1.1⟩
    rcases mem_signalAll cleaned lingers with dead | gone
    · exact survives.2 dead
    · exact survives.1.2 gone

end CommandShell

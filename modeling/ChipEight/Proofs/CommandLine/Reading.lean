import ChipEight.Proofs.CommandLine.Documented

/-!
# Reading the command line

How `CommandLine.parse` reads a line, in terms of the state in which the pending item is completed.

* An option is read in every spelling (`State.readAll_spelled`). Its value is stored at once, if it
  stands in the same argument, or when the next item starts.
* What is kept about an option has no part in reading arguments that do not start like it: changing
  it before they are read comes to the same as changing it afterwards (`State.readAll_of_absent`).
  `State.Ignores` is what the functions that read an argument have in common here.
-/

namespace ChipEight.CommandLine

namespace State

variable {s t : State}

/-! ### The pending item -/

theorem complete_of_nothing (h : t.pending = .nothing) : t.complete = .ok t := by
  obtain ⟨program, values, normalizeShiftFlag, pending, onlyProgram⟩ := t
  obtain rfl : pending = .nothing := h
  rfl

theorem pending_of_store {option : NumberOption} {text : List Char}
    (h : s.store option text = .ok t) :
    t.pending = s.pending ∧ t.onlyProgram = s.onlyProgram ∧ t.program = s.program := by
  unfold store at h
  split at h
  · cases h
  · split at h
    · cases h
    · cases h
      exact ⟨rfl, rfl, rfl⟩

/-- Once it is completed, no item is pending, and nothing that was read is forgotten. -/
theorem pending_of_complete (h : s.complete = .ok t) :
    t.pending = .nothing ∧ t.onlyProgram = s.onlyProgram ∧ s.hasProgram = t.program.isSome := by
  obtain ⟨program, values, normalizeShiftFlag, pending, onlyProgram⟩ := s
  cases pending with
  | nothing =>
    cases h
    exact ⟨rfl, rfl, Bool.or_false _⟩
  | option option text =>
    cases text with
    | none => cases h
    | some text =>
      obtain ⟨hpending, honly, hprogram⟩ := pending_of_store h
      refine ⟨hpending, honly, ?_⟩
      rw [hprogram]
      exact Bool.or_false _
  | program path =>
    unfold complete at h
    dsimp only at h
    split at h
    · cases h
    · cases h
      exact ⟨rfl, rfl, Bool.or_true _⟩

/-- A state in which nothing is pending, with an option and its value pending. -/
theorem complete_option (h : t.pending = .nothing) (option : NumberOption) (text : List Char) :
    { t with pending := .option option (some text) }.complete = t.store option text := by
  obtain ⟨program, values, normalizeShiftFlag, pending, onlyProgram⟩ := t
  obtain rfl : pending = .nothing := h
  rfl

theorem complete_program (h : t.pending = .nothing) {path : List Char} (hpath : path ≠ []) :
    { t with pending := .program path }.complete = .ok { t with program := some path } := by
  obtain ⟨program, values, normalizeShiftFlag, pending, onlyProgram⟩ := t
  obtain rfl : pending = .nothing := h
  exact if_neg (by simpa using hpath)

/-! ### Reading an option with a number -/

theorem readNumber_of_complete (h : s.complete = .ok t) (option : NumberOption) :
    s.readNumber option none = .ok { t with pending := .option option none } ∧
      ∀ text, s.readNumber option (some text) = t.store option text := by
  simp only [readNumber, h, implies_true, and_self]

section
variable (hopen : s.onlyProgram = false)
include hopen

/-- While options may follow, an argument is told by its dashes. -/
theorem read_of_open (argument : List Char) :
    s.read argument = match argument with
      | ['-', '-'] => .ok { s with onlyProgram := true }
      | '-' :: '-' :: text => s.readLong text
      | '-' :: letter :: rest => s.readShort letter rest
      | text => s.readPlain text :=
  if_neg (by rw [hopen]; decide)

theorem read_dashes : s.read "--".toList = .ok { s with onlyProgram := true } :=
  read_of_open hopen _

theorem read_inFull (option : NumberOption) :
    s.read (OptionName.number option).inFull.toList = s.readNumber option none := by
  cases option <;> exact read_of_open hopen _

theorem read_joined (option : NumberOption) (text : String) :
    s.read ((OptionName.number option).inFull ++ "=" ++ text).toList =
      s.readNumber option (some text.toList) := by
  rw [String.toList_append, String.toList_append]
  cases option <;> exact read_of_open hopen _

/-- Behind the letter of an option, one `=` does not count as part of the value. -/
theorem read_letter {option : NumberOption} {letter : Char}
    (hletter : option.declaration.short = some letter) (rest : List Char) :
    s.read ('-' :: letter :: rest) =
      s.readNumber option (match rest with
        | [] => none
        | '=' :: value => some value
        | value => some value) := by
  cases option <;> cases hletter
  exact read_of_open hopen _

theorem read_normalizeShiftFlag :
    s.read (OptionName.switch .normalizeShiftFlag).inFull.toList =
      s.readSwitch .normalizeShiftFlag :=
  read_of_open hopen _

theorem read_plain {text : List Char} (hdash : text.head? ≠ some '-') :
    s.read text = s.readPlain text := by
  rw [read_of_open hopen]
  split
  · exact absurd rfl hdash
  · exact absurd rfl hdash
  · exact absurd rfl hdash
  · rfl

end

theorem readAll_cons_of_ok {argument : List Char} (h : s.read argument = .ok t)
    (rest : List (List Char)) : s.readAll (argument :: rest) = t.readAll rest := by
  rw [readAll, h]

theorem readAll_singleton (s : State) (argument : List Char) :
    s.readAll [argument] = s.read argument := by
  rw [readAll]
  cases s.read argument <;> rfl

/-- Arguments are read one after another, up to the first that is refused. -/
theorem readAll_append (s : State) (first second : List (List Char)) :
    s.readAll (first ++ second) =
      match s.readAll first with
      | .error exit => .error exit
      | .ok t => t.readAll second := by
  induction first generalizing s with
  | nil => rfl
  | cons argument first ih =>
    rw [List.cons_append, readAll, readAll]
    cases s.read argument with
    | error exit => rfl
    | ok t => exact ih t

/-- However an option is written, its value is stored at once or left pending. -/
theorem readAll_spelled {option : NumberOption} {text : String} {piece : List String}
    (h : s.complete = .ok t) (hopen : s.onlyProgram = false) (hvalue : IsValue text)
    (hspelled : option.Spelled text piece) :
    s.readAll (piece.map String.toList) =
        .ok { t with pending := .option option (some text.toList) } ∨
      s.readAll (piece.map String.toList) = t.store option text.toList := by
  obtain ⟨hpending, hstored⟩ := readNumber_of_complete h option
  -- the option without its value waits for the argument behind it
  have hseparate {name : List Char} (hname : s.read name = s.readNumber option none) :
      s.readAll [name, text.toList] =
        .ok { t with pending := .option option (some text.toList) } := by
    have hopen : t.onlyProgram = false := (pending_of_complete h).2.1.trans hopen
    rw [readAll_cons_of_ok (hname.trans hpending), readAll_singleton]
    exact read_plain (s := { t with pending := .option option none }) hopen hvalue.head?_ne
  obtain ⟨first, rest, htext, -, hequals⟩ := hvalue
  cases hspelled with
  | separate => exact .inl (hseparate (read_inFull hopen option))
  | joined =>
    right
    rw [List.map_singleton, readAll_singleton, read_joined hopen, hstored]
  | short hletter =>
    left
    rw [List.map_cons, shortForm, String.toList_ofList]
    exact hseparate (read_letter hopen hletter [])
  | attached hletter =>
    right
    rw [List.map_singleton, readAll_singleton, String.toList_append, shortForm,
      String.toList_ofList]
    refine (read_letter hopen hletter text.toList).trans ?_
    rw [htext, ← hstored]
    split
    · cases ‹first :: rest = []›
    · next value heq => exact absurd (List.cons.inj heq).1 hequals
    · rfl
  | equated hletter =>
    right
    rw [List.map_singleton, readAll_singleton, String.toList_append, String.toList_append,
      shortForm, String.toList_ofList]
    exact (read_letter hopen hletter ('=' :: text.toList)).trans (hstored text.toList)

/-! ### Reading the program -/

/-- Where nothing stands against a program, it is left pending. -/
theorem readProgram_of_complete (h : s.complete = .ok t) (hnone : t.program = none)
    (path : List Char) : s.readProgram path = .ok { t with pending := .program path } := by
  have hfirst : s.hasProgram = false := by
    rw [(pending_of_complete h).2.2, hnone]
    rfl
  rw [readProgram, hfirst, h]
  rfl

/-- An argument that does not look like an option is the program, unless an option waits for its
value. -/
theorem read_program (hopen : s.onlyProgram = false)
    (hwaits : ∀ option, s.pending ≠ .option option none) {path : String} (hplain : IsPlain path) :
    s.read path.toList = s.readProgram path.toList := by
  rw [read_plain hopen hplain.2, readPlain]
  split
  · next option hpending => exact absurd hpending (hwaits option)
  · rfl

/-! ### What reading does not look at -/

/-- A change of what is kept about one option. -/
inductive Change where
  /-- The number of an option. -/
  | number (option : NumberOption) (n : Option Nat)
  /-- The switch that changes the flag of a left shift. -/
  | flag (on : Bool)

/-- The option that is changed. -/
def Change.name : Change → OptionName
  | number option _ => .number option
  | flag _ => .switch .normalizeShiftFlag

/-- The state after a change. -/
def change (s : State) : Change → State
  | .number option n => { s with values := fun o => if o = option then n else s.values o }
  | .flag on => { s with normalizeShiftFlag := on }

/-- Changes of different options can be made in any order. -/
theorem change_comm (s : State) {c c' : Change} (hne : c.name ≠ c'.name) :
    (s.change c).change c' = (s.change c').change c := by
  cases c with
  | number option n =>
    cases c' with
    | number option' n' =>
      -- the two numbers are kept in different places
      have hoption : option ≠ option' := fun hsame => hne (by rw [hsame]; rfl)
      simp only [change, mk.injEq, true_and, and_true]
      funext o
      by_cases ho : o = option'
      · rw [if_pos ho, if_pos ho, if_neg (ho ▸ hoption.symm)]
      · rw [if_neg ho, if_neg ho]
    | flag => rfl
  | flag on =>
    cases c' with
    | number => rfl
    | flag => exact absurd rfl hne

/-- The option that is pending, if one is. -/
def pendingName? (s : State) : Option OptionName :=
  match s.pending with
  | .option option _ => some (.number option)
  | .nothing | .program _ => none

theorem pendingName?_ne (h : s.pending = .nothing) {name : OptionName} :
    s.pendingName? ≠ some name := by
  rw [pendingName?, h]
  nofun

/-- This way of reading has nothing to do with an option: it does not look at what is kept about it,
and does not leave it pending. Nor does it end the options. -/
structure Ignores (name : OptionName) (f : State → Except Exit State) : Prop where
  /-- A change may as well be made afterwards. -/
  change : ∀ (s : State) (c : Change), c.name = name → s.pendingName? ≠ some name →
    f (s.change c) = (f s).map (·.change c)
  /-- The option is not left pending. -/
  pending : ∀ s t : State, s.pendingName? ≠ some name → f s = .ok t → t.pendingName? ≠ some name
  /-- The options are not ended. -/
  onlyProgram : ∀ s t : State, f s = .ok t → t.onlyProgram = s.onlyProgram

section
variable {name : OptionName}

/-- One way of reading after another. -/
theorem Ignores.bind {f g : State → Except Exit State} (hf : Ignores name f)
    (hg : Ignores name g) : Ignores name fun s =>
      match f s with
      | .error exit => .error exit
      | .ok t => g t where
  change s c hc hs := by
    rw [hf.change s c hc hs]
    cases hfirst : f s with
    | error exit => rfl
    | ok t => exact hg.change t c hc (hf.pending s t hs hfirst)
  pending s t hs h := by
    cases hfirst : f s with
    | error exit =>
      rw [hfirst] at h
      cases h
    | ok s' =>
      rw [hfirst] at h
      exact hg.pending s' t (hf.pending s s' hs hfirst) h
  onlyProgram s t h := by
    cases hfirst : f s with
    | error exit =>
      rw [hfirst] at h
      cases h
    | ok s' =>
      rw [hfirst] at h
      exact (hg.onlyProgram s' t h).trans (hf.onlyProgram s s' hfirst)

theorem ignores_error (exit : Exit) : Ignores name fun _ => .error exit where
  change _ _ _ _ := rfl
  pending _ _ _ h := by cases h
  onlyProgram _ _ h := by cases h

/-- Leaving another item pending. -/
theorem ignores_pending {p : Pending} (hp : ∀ text option, p = .option option text →
    OptionName.number option ≠ name) : Ignores name fun s => .ok { s with pending := p } where
  change s c _ _ := by cases c <;> rfl
  pending s t _ h := by
    cases h
    unfold pendingName?
    cases p with
    | option option text => exact fun hsame => hp text option rfl (Option.some.inj hsame)
    | nothing | program => nofun
  onlyProgram s t h := by
    cases h
    rfl

theorem ignores_store {option : NumberOption} (hne : OptionName.number option ≠ name)
    (text : List Char) : Ignores name (store · option text) where
  change s c hc _ := by
    -- the numbers of different options are kept apart, so storing finds what it would find before
    have hother : c.name ≠ .number option := fun hsame => hne (hsame.symm.trans hc)
    have hvalues : (s.change c).values option = s.values option := by
      cases c with
      | number option' n => exact if_neg fun hsame => hother (by rw [hsame]; rfl)
      | flag on => rfl
    unfold store
    rw [hvalues]
    by_cases hgiven : (s.values option).isSome = true
    · rw [if_pos hgiven, if_pos hgiven]
      rfl
    · rw [if_neg hgiven, if_neg hgiven]
      cases option.value? text with
      | none => rfl
      | some n =>
        have hstored : (s.change c).change (.number option (some n)) =
            (s.change (.number option (some n))).change c := change_comm s hother
        exact congrArg Except.ok hstored
  pending s t hs h := by
    unfold pendingName? at hs ⊢
    rwa [(pending_of_store h).1]
  onlyProgram s t h := (pending_of_store h).2.1

theorem ignores_complete : Ignores name complete where
  change s c hc hs := by
    have hrest : { s.change c with pending := .nothing } =
        { s with pending := .nothing }.change c := by cases c <;> rfl
    have hpending : (s.change c).pending = s.pending := by cases c <;> rfl
    unfold complete
    rw [hrest, hpending]
    unfold pendingName? at hs
    cases hp : s.pending with
    | nothing => rfl
    | option option text =>
      cases text with
      | none => rfl
      | some text =>
        rw [hp] at hs
        exact (ignores_store (fun hsame => hs (congrArg some hsame)) text).change _ c hc nofun
    | program path =>
      dsimp only
      split
      · rfl
      · cases c <;> rfl
  pending s t _ h := pendingName?_ne (pending_of_complete h).1
  onlyProgram s t h := (pending_of_complete h).2.1

/-- Reading in one of two ways, by something that is not about the option. -/
theorem Ignores.ite {f g : State → Except Exit State} {p : State → Bool}
    (hp : ∀ (s : State) (c : Change), p (s.change c) = p s) (hf : Ignores name f)
    (hg : Ignores name g) : Ignores name fun s => if p s then f s else g s where
  change s c hc hs := by
    rw [hp]
    split
    · exact hf.change s c hc hs
    · exact hg.change s c hc hs
  pending s t hs h := by
    split at h
    · exact hf.pending s t hs h
    · exact hg.pending s t hs h
  onlyProgram s t h := by
    split at h
    · exact hf.onlyProgram s t h
    · exact hg.onlyProgram s t h

theorem ignores_readProgram (path : List Char) : Ignores name (readProgram · path) :=
  .ite (p := hasProgram) (fun _ c => by cases c <;> rfl) (ignores_error _)
    (ignores_complete.bind (ignores_pending nofun))

theorem ignores_readNumber {option : NumberOption} (hne : OptionName.number option ≠ name)
    (text : Option (List Char)) : Ignores name (readNumber · option text) := by
  cases text with
  | none =>
    refine ignores_complete.bind (ignores_pending fun text option' hsame => ?_)
    cases hsame
    exact hne
  | some text => exact ignores_complete.bind (ignores_store hne text)

theorem ignores_readSwitch {switch : Switch} (hne : OptionName.switch switch ≠ name) :
    Ignores name (readSwitch · switch) := by
  cases switch with
  -- help and version end the reading, and the last switch changes its own flag only
  | help => exact ignores_complete.bind (ignores_error _)
  | version => exact ignores_complete.bind (ignores_error _)
  | normalizeShiftFlag =>
    refine ignores_complete.bind ⟨fun s c hc _ => ?_, fun s t hs h => ?_, fun s t h => ?_⟩
    · cases c with
      | number option n => cases hon : s.normalizeShiftFlag <;> simp [State.change, hon, Except.map]
      | flag on => exact absurd hc hne
    · dsimp only at h
      split at h
      · cases h
      · cases h
        exact hs
    · dsimp only at h
      split at h
      · cases h
      · cases h
        rfl

theorem ofLong?_eq_some {text : List Char} {found : OptionName}
    (h : OptionName.ofLong? text = some found) : found.long.toList = text := by
  unfold OptionName.ofLong? at h
  simpa using List.find?_some h

theorem ofShort?_eq_some {letter : Char} {found : OptionName}
    (h : OptionName.ofShort? letter = some found) : found.short = some letter := by
  unfold OptionName.ofShort? at h
  simpa using List.find?_some h

theorem ignores_readLong {text : List Char} {argument : String}
    (hargument : argument.toList = '-' :: '-' :: text) (hname : ¬ name.StartsIn argument) :
    Ignores name (readLong · text) := by
  -- a name that is found stands at the start of the argument, where this option does not
  have hfound : ∀ found, OptionName.ofLong? (text.takeWhile (· ≠ '=')) = some found →
      found ≠ name := by
    rintro found hfound rfl
    refine hname (.inl ?_)
    rw [OptionName.inFull, String.toList_append, ofLong?_eq_some hfound, hargument]
    exact List.cons_prefix_cons.2 ⟨rfl, List.cons_prefix_cons.2 ⟨rfl, List.takeWhile_prefix _⟩⟩
  unfold readLong
  generalize OptionName.ofLong? (text.takeWhile (· ≠ '=')) = lookup at hfound ⊢
  generalize text.dropWhile (· ≠ '=') = rest
  cases lookup with
  | none => exact ignores_error _
  | some found =>
    cases found with
    | number option => exact ignores_readNumber (hfound _ rfl) _
    | switch switch =>
      cases rest with
      | nil => exact ignores_readSwitch (hfound _ rfl)
      | cons => exact ignores_error _

theorem ignores_readShort {letter : Char} {rest : List Char} {argument : String}
    (hargument : argument.toList = '-' :: letter :: rest) (hname : ¬ name.StartsIn argument) :
    Ignores name (readShort · letter rest) := by
  have hfound : ∀ found, OptionName.ofShort? letter = some found → found ≠ name := by
    rintro found hfound rfl
    refine hname (.inr ⟨letter, ofShort?_eq_some hfound, ?_⟩)
    rw [hargument]
    exact ⟨rest, rfl⟩
  unfold readShort
  generalize OptionName.ofShort? letter = lookup at hfound ⊢
  cases lookup with
  | none => exact ignores_error _
  | some found =>
    cases found with
    | number option => exact ignores_readNumber (hfound _ rfl) _
    | switch switch => exact ignores_readSwitch (hfound _ rfl)

/-- A value for the option that is pending. -/
theorem ignores_readPlain (text : List Char) : Ignores name (readPlain · text) where
  change s c hc hs := by
    have hpending : (s.change c).pending = s.pending := by cases c <;> rfl
    unfold readPlain
    rw [hpending]
    split
    · cases c <;> rfl
    · exact (ignores_readProgram text).change s c hc hs
  pending s t hs h := by
    unfold readPlain at h
    split at h
    · next option hpending =>
      cases h
      unfold pendingName? at hs ⊢
      rwa [hpending] at hs
    · exact (ignores_readProgram text).pending s t hs h
  onlyProgram s t h := by
    unfold readPlain at h
    split at h
    · cases h
      rfl
    · have hprogram : Ignores name (readProgram · text) := ignores_readProgram text
      exact hprogram.onlyProgram s t h

/-- Reading an argument that does not start like the option. -/
theorem ignores_read {argument : String} (hdashes : argument ≠ "--")
    (hname : ¬ name.StartsIn argument) : Ignores name (read · argument.toList) := by
  refine .ite (p := onlyProgram) (fun _ c => by cases c <;> rfl)
    (ignores_readProgram argument.toList) ?_
  generalize htext : argument.toList = text
  split
  · exact absurd (String.toList_inj.1 htext) hdashes
  · exact ignores_readLong htext hname
  · exact ignores_readShort htext hname
  · exact ignores_readPlain _

/-! ### Reading a line on which an option is absent -/

/-- One argument of a line on which the option is absent. -/
theorem read_of_absent {argument : String} {line : List String}
    (hline : s.onlyProgram = true ∨ name.Absent (argument :: line))
    (hs : s.pendingName? ≠ some name) :
    (∀ c : Change, c.name = name →
        (s.change c).read argument.toList = (s.read argument.toList).map (·.change c)) ∧
      ∀ t, s.read argument.toList = .ok t →
        t.pendingName? ≠ some name ∧ (t.onlyProgram = true ∨ name.Absent line) := by
  cases hopen : s.onlyProgram with
  | true =>
    -- behind the end of the options every argument is a program
    have hread : s.read argument.toList = s.readProgram argument.toList := if_pos hopen
    have hignores : Ignores name (readProgram · argument.toList) := ignores_readProgram _
    rw [hread]
    refine ⟨fun c hc => ?_, fun t h => ⟨hignores.pending s t hs h,
      .inl ((hignores.onlyProgram s t h).trans hopen)⟩⟩
    rw [← hignores.change s c hc hs]
    exact if_pos (by cases c <;> exact hopen)
  | false =>
    have habsent := hline.resolve_left (by rw [hopen]; decide)
    by_cases hdashes : argument = "--"
    · subst hdashes
      rw [read_dashes hopen]
      refine ⟨fun c _ => ?_, fun t h => ?_⟩
      · rw [read_dashes (by cases c <;> exact hopen)]
        cases c <;> rfl
      · cases h
        exact ⟨hs, .inl rfl⟩
    · obtain ⟨hstarts, hlater⟩ := (OptionName.absent_cons_iff hdashes).1 habsent
      have hignores := ignores_read hdashes hstarts
      exact ⟨fun c hc => hignores.change s c hc hs,
        fun t h => ⟨hignores.pending s t hs h, .inr hlater⟩⟩

/-- What is kept about an option may as well be changed behind a line on which it is absent. -/
theorem readAll_of_absent {line : List String} (hline : s.onlyProgram = true ∨ name.Absent line)
    (hs : s.pendingName? ≠ some name) :
    (∀ c : Change, c.name = name → (s.change c).readAll (line.map String.toList) =
        (s.readAll (line.map String.toList)).map (·.change c)) ∧
      ∀ t, s.readAll (line.map String.toList) = .ok t → t.pendingName? ≠ some name := by
  -- Behind the end of the options the option may be on the line, but it is not read as one there.
  induction line generalizing s with
  | nil => exact ⟨fun _ _ => rfl, fun t h => by cases h; exact hs⟩
  | cons argument line ih =>
    obtain ⟨hchange, hread⟩ := read_of_absent hline hs
    rw [List.map_cons]
    cases hfirst : s.read argument.toList with
    | error exit =>
      rw [readAll, hfirst]
      refine ⟨fun c hc => ?_, nofun⟩
      rw [readAll, hchange c hc, hfirst]
      rfl
    | ok t =>
      obtain ⟨ht, hlater⟩ := hread t hfirst
      rw [readAll_cons_of_ok hfirst]
      refine ⟨fun c hc => ?_, (ih hlater ht).2⟩
      have hchanged : (s.change c).read argument.toList = .ok (t.change c) := by
        rw [hchange c hc, hfirst]
        rfl
      rw [readAll_cons_of_ok hchanged, (ih hlater ht).1 c hc]

theorem onlyProgram_of_readAll {line : List String} (hopen : "--" ∉ line)
    (hline : name.Absent line) (hread : s.readAll (line.map String.toList) = .ok t) :
    t.onlyProgram = s.onlyProgram := by
  induction line generalizing s with
  | nil =>
    cases hread
    rfl
  | cons argument line ih =>
    rw [List.mem_cons, not_or] at hopen
    obtain ⟨hstarts, hline⟩ := (OptionName.absent_cons_iff (Ne.symm hopen.1)).1 hline
    rw [List.map_cons, readAll] at hread
    split at hread
    · cases hread
    · next s' hfirst =>
      rw [ih hopen.2 hline hread, (ignores_read (Ne.symm hopen.1) hstarts).onlyProgram s s' hfirst]

end

end State

end ChipEight.CommandLine
